import Abbrev.Proofs.Checked.Binding
import Abbrev.Report.Help
import Abbrev.Resolution

/-! Labels and descriptions written from the tables of a template, with every pointer followed under
a check. They are the labels and descriptions of the template itself, also where a binding holds
less than the template asks for. -/

namespace Abbrev

namespace Layout

def cellText? (l : Layout) (b : Binding) (separator : Char) : Cell → Option String
  | .word w => some w
  | .slot i => do
    let row ← l.rows[i]?
    let param ← l.paramOf? row
    let value := ((b.get? param.name).map (·.text separator)).getD ""
    pure (row.name ++ "=" ++ value)

end Layout

def Match.label? (m : Match) (separator : Char) : Option String := do
  let l := m.template.layout
  let texts ← l.cells.mapM (l.cellText? m.binding separator)
  pure (String.intercalate " " texts)

/-- What a label shows of a part. -/
def Match.partText (m : Match) (separator : Char) : Part → String
  | .word w => w
  | .slot s =>
    let value := ((m.binding.get? s.param.name).map (·.text separator)).getD ""
    s.name ++ "=" ++ value

theorem Match.label?_eq {m : Match} (h : m.template.WellFormed) (separator : Char) :
    m.label? separator = some (m.label separator) := by
  have hcell : ∀ c p, m.template.layout.HoldsPart c p →
      m.template.layout.cellText? m.binding separator c = some (m.partText separator p) := by
    rintro c p (w | @⟨i, r, s, row, holds⟩)
    · rfl
    · rw [Layout.cellText?, row]
      simp [holds.paramOf, holds.name_eq, partText]
  rw [label?, mapM_eq_some (h.lays.cells.imp hcell)]
  rfl

namespace Report

def rowLines? (r : Report) (l : Layout) (row : Row) : Option (List String) := do
  let param ← l.paramOf? row
  pure (r.slotLines ⟨param, row.name, row.default, row.help⟩)

def helpLines? (r : Report) (t : Template) : Option (List String) := do
  let head := r.paint .bold t.path :: indented "  " t.help ++ [""]
  if t.layout.rows.isEmpty then pure head
  else do
    let lines ← t.layout.rows.mapM (r.rowLines? t.layout)
    pure (head ++ lines.flatten ++ [""])

def help? (r : Report) (c : Catalog) (ids : List Nat) : Option String := do
  let lines ← (ids.filterMap c.get?).mapM r.helpLines?
  pure (unlines lines.flatten)

theorem rowLines?_eq {l : Layout} {row : Row} {s : Slot} (h : l.HoldsSlot row s) (r : Report) :
    r.rowLines? l row = some (r.slotLines s) := by
  rw [rowLines?, h.paramOf, h.name_eq, h.default_eq, h.help_eq]
  rfl

theorem helpLines?_eq {t : Template} (h : t.WellFormed) (r : Report) :
    r.helpLines? t = some (r.helpLines t) := by
  have hempty : t.layout.rows.isEmpty = t.slots.isEmpty := by
    have hlength : t.layout.rows.length = t.slots.length := h.rows_slots.length_eq
    rw [Bool.eq_iff_iff, List.isEmpty_iff_length_eq_zero, List.isEmpty_iff_length_eq_zero, hlength]
  rw [helpLines?, helpLines, hempty,
    mapM_eq_some (h.rows_slots.imp fun _ _ hrs => rowLines?_eq hrs r)]
  split <;> rfl

theorem help?_eq {c : Catalog} (h : ∀ t ∈ c.templates, t.WellFormed) (r : Report)
    (ids : List Nat) : r.help? c ids = some (r.help c ids) := by
  have hlines : (ids.filterMap c.get?).mapM r.helpLines? =
      some ((ids.filterMap c.get?).map r.helpLines) := by
    refine mapM_eq_some (List.forall₂_same.2 fun t ht => helpLines?_eq ?_ r)
    obtain ⟨id, -, hget⟩ := List.mem_filterMap.1 ht
    exact h t (List.mem_of_getElem? hget)
  rw [help?, hlines]
  rfl

end Report

end Abbrev
