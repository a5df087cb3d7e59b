import Abbrev.Value

/-! The values bound to the parameters of a command, by name. Entries are kept in the order of their
names, code point by code point, so that equal contents are equal bindings. -/

namespace Abbrev

namespace Entries

/-- Puts a value at its place, or in the place of the name's earlier value. -/
def insert (name : String) (v : Value) : List (String × Value) → List (String × Value)
  | [] => [(name, v)]
  | e :: es =>
    if name < e.1 then (name, v) :: e :: es
    else if name = e.1 then (name, v) :: es
    else e :: insert name v es

theorem name_of_mem_insert {name : String} {v : Value} {es : List (String × Value)}
    {x : String × Value} (h : x ∈ insert name v es) : x.1 = name ∨ x ∈ es := by
  induction es with
  | nil => simp_all [insert]
  | cons e es ih => grind [insert]

theorem pairwise_insert (name : String) (v : Value) {es : List (String × Value)}
    (h : es.Pairwise (·.1 < ·.1)) : (insert name v es).Pairwise (·.1 < ·.1) := by
  induction es with
  | nil => simp [insert]
  | cons e es ih =>
    rw [List.pairwise_cons] at h
    unfold insert
    split
    · rename_i hlt
      simp only [List.pairwise_cons, List.mem_cons]
      refine ⟨?_, h.1, h.2⟩
      rintro x (rfl | hx)
      · exact hlt
      · exact String.lt_trans hlt (h.1 x hx)
    · rename_i hnlt
      split
      · rename_i heq
        rw [List.pairwise_cons]
        exact ⟨fun x hx => heq ▸ h.1 x hx, h.2⟩
      · rename_i hne
        rw [List.pairwise_cons]
        refine ⟨fun x hx => ?_, ih h.2⟩
        rcases name_of_mem_insert hx with hx | hx
        · rw [hx]
          exact Decidable.byContradiction fun hn =>
            hne (String.le_antisymm (String.not_lt.1 hn) (String.not_lt.1 hnlt))
        · exact h.1 x hx

theorem lookup_insert (name other : String) (v : Value) (es : List (String × Value)) :
    (insert name v es).lookup other =
      if other = name then some v else es.lookup other := by
  induction es with
  | nil => grind [insert]
  | cons e es ih => grind [insert]

end Entries

@[ext] structure Binding where
  entries : List (String × Value)
  sorted : entries.Pairwise (·.1 < ·.1)

namespace Binding

def empty : Binding := ⟨[], .nil⟩

def insert (b : Binding) (name : String) (v : Value) : Binding :=
  ⟨Entries.insert name v b.entries, Entries.pairwise_insert name v b.sorted⟩

/-- Of several values for one name the last is kept. -/
def ofList (es : List (String × Value)) : Binding :=
  es.foldl (fun b e => b.insert e.1 e.2) empty

def get? (b : Binding) (name : String) : Option Value := b.entries.lookup name

def contains (b : Binding) (name : String) : Bool := (b.get? name).isSome

def size (b : Binding) : Nat := b.entries.length

def names (b : Binding) : List String := b.entries.map (·.1)

@[simp] theorem get?_empty (name : String) : empty.get? name = none := rfl

theorem get?_insert (b : Binding) (name other : String) (v : Value) :
    (b.insert name v).get? other = if other = name then some v else b.get? other :=
  Entries.lookup_insert name other v b.entries

end Binding

end Abbrev
