import Abbrev.Commands
import Abbrev.Proofs.Success
import Mathlib.Data.List.Induction

/-! Commands after any sequence of registrations. One that fails, since its path is taken, changes
nothing; one that succeeds gives its template the next identity and its handler the same place. So
every command is that of exactly one call, and no call registers the path of another. -/

namespace Abbrev

namespace Commands

variable {σ : Type}

theorem register_eq_ok {c c' : Commands σ} {t : Template} {h : Handler σ} :
    c.register t h = .ok c' ↔ t.path ∉ c.catalog.paths ∧ ⟨c.list ++ [⟨t, h⟩]⟩ = c' := by
  unfold register Catalog.freshId
  by_cases hpath : t.path ∈ c.catalog.paths
  · simp [hpath, bind, Except.bind]
  · simp [hpath, bind, Except.bind, pure, Except.pure]

/-- What one call leaves, whether it succeeds or not. -/
def attempt (c : Commands σ) (call : Command σ) : Commands σ :=
  match c.register call.template call.handler with
  | .ok c' => c'
  | .error _ => c

/-- What is registered after some calls, one after the other. -/
def ofCalls (calls : List (Command σ)) : Commands σ := calls.foldl attempt empty

theorem attempt_of_mem {c : Commands σ} {call : Command σ}
    (h : call.template.path ∈ c.catalog.paths) : c.attempt call = c := by
  unfold attempt
  split
  · rename_i c' hc'
    exact absurd h (register_eq_ok.1 hc').1
  · rfl

theorem attempt_of_not_mem {c : Commands σ} {call : Command σ}
    (h : call.template.path ∉ c.catalog.paths) : c.attempt call = ⟨c.list ++ [call]⟩ := by
  have hregister : c.register call.template call.handler = .ok ⟨c.list ++ [call]⟩ :=
    register_eq_ok.2 ⟨h, rfl⟩
  rw [attempt, hregister]

theorem ofCalls_concat (calls : List (Command σ)) (call : Command σ) :
    ofCalls (calls ++ [call]) = (ofCalls calls).attempt call := by
  rw [ofCalls, List.foldl_append]
  rfl

theorem prefix_ofCalls_append (calls more : List (Command σ)) :
    (ofCalls calls).list <+: (ofCalls (calls ++ more)).list := by
  induction more using List.reverseRecOn with
  | nil => simp
  | append_singleton more call ih =>
    rw [← List.append_assoc, ofCalls_concat]
    by_cases hpath : call.template.path ∈ (ofCalls (calls ++ more)).catalog.paths
    · rwa [attempt_of_mem hpath]
    · rw [attempt_of_not_mem hpath]
      exact ih.trans (List.prefix_append _ _)

theorem prefix_ofCalls_take (calls : List (Command σ)) {j k : Nat} (h : j ≤ k) :
    (ofCalls (calls.take j)).list <+: (ofCalls (calls.take k)).list := by
  obtain ⟨more, hmore⟩ := List.take_prefix_take_left (l := calls) h
  rw [← hmore]
  exact prefix_ofCalls_append _ _

theorem catalog_attempt_congr {τ : Type} {c : Commands σ} {c' : Commands τ} {call : Command σ}
    {call' : Command τ} (hc : c.catalog = c'.catalog) (ht : call.template = call'.template) :
    (c.attempt call).catalog = (c'.attempt call').catalog := by
  by_cases hpath : call.template.path ∈ c.catalog.paths
  · rw [attempt_of_mem hpath, attempt_of_mem (ht ▸ hc ▸ hpath), hc]
  · have htemplates : c.list.map (·.template) = c'.list.map (·.template) :=
      congrArg Catalog.templates hc
    rw [attempt_of_not_mem hpath, attempt_of_not_mem (ht ▸ hc ▸ hpath)]
    simp only [catalog, List.map_append, List.map_singleton, htemplates, ht]

/-- Which templates are registered does not depend on the handlers. -/
theorem catalog_ofCalls_congr {τ : Type} {calls : List (Command σ)} {calls' : List (Command τ)}
    (h : calls.map (·.template) = calls'.map (·.template)) :
    (ofCalls calls).catalog = (ofCalls calls').catalog := by
  induction calls using List.reverseRecOn generalizing calls' with
  | nil =>
    obtain rfl : calls' = [] := by simpa using h.symm
    rfl
  | append_singleton calls call ih =>
    rw [List.map_append, List.map_singleton] at h
    obtain ⟨earlier, last, rfl, hearlier, hlast⟩ := List.map_eq_append_iff.1 h.symm
    obtain ⟨call', rest, rfl, ht, hrest⟩ := List.map_eq_cons_iff.1 hlast
    obtain rfl : rest = [] := by simpa using hrest
    rw [ofCalls_concat, ofCalls_concat]
    exact catalog_attempt_congr (ih hearlier.symm) ht.symm

/-- The call at a place succeeded and gave its template an identity. -/
structure Registered (calls : List (Command σ)) (j : Nat) (call : Command σ) (id : Nat) : Prop where
  call_eq : calls[j]? = some call
  accepted : (ofCalls (calls.take j)).register call.template call.handler =
    .ok (ofCalls (calls.take (j + 1)))
  id_eq : (ofCalls (calls.take j)).catalog.size = id

theorem registered_iff {calls : List (Command σ)} {j : Nat} {call : Command σ} {id : Nat} :
    Registered calls j call id ↔ calls[j]? = some call ∧
      call.template.path ∉ (ofCalls (calls.take j)).catalog.paths ∧
      (ofCalls (calls.take j)).catalog.size = id := by
  constructor
  · rintro ⟨hcall, haccepted, hid⟩
    exact ⟨hcall, (register_eq_ok.1 haccepted).1, hid⟩
  · rintro ⟨hcall, hpath, hid⟩
    refine ⟨hcall, register_eq_ok.2 ⟨hpath, ?_⟩, hid⟩
    rw [List.take_add_one, hcall, Option.toList_some, ofCalls_concat, attempt_of_not_mem hpath]

theorem Registered.list_eq {calls : List (Command σ)} {j : Nat} {call : Command σ} {id : Nat}
    (h : Registered calls j call id) :
    (ofCalls (calls.take (j + 1))).list = (ofCalls (calls.take j)).list ++ [call] :=
  congrArg Commands.list (register_eq_ok.1 h.accepted).2.symm

/-- A command stays at the place of its identity, whatever is registered later. -/
theorem Registered.getElem?_eq {calls : List (Command σ)} {j : Nat} {call : Command σ} {id : Nat}
    (h : Registered calls j call id) : (ofCalls calls).list[id]? = some call := by
  have hprefix : (ofCalls (calls.take j)).list ++ [call] <+: (ofCalls calls).list := by
    rw [← h.list_eq]
    conv_rhs => rw [← List.take_append_drop (j + 1) calls]
    exact prefix_ofCalls_append _ _
  obtain ⟨later, hlater⟩ := hprefix
  have hid : (ofCalls (calls.take j)).list.length = id := by
    rw [← h.id_eq, Catalog.size, catalog, List.length_map]
  rw [← hlater, List.append_assoc, ← hid, List.getElem?_append_right (Nat.le_refl _), Nat.sub_self]
  rfl

/-- A call that succeeded has succeeded whatever is called later. -/
theorem Registered.append {calls : List (Command σ)} {j : Nat} {call : Command σ} {id : Nat}
    (h : Registered calls j call id) (later : List (Command σ)) :
    Registered (calls ++ later) j call id := by
  obtain ⟨hcall, hpath, hid⟩ := registered_iff.1 h
  obtain ⟨hlt, -⟩ := List.getElem?_eq_some_iff.1 hcall
  refine registered_iff.2 ?_
  rw [List.take_append_of_le_length (Nat.le_of_lt hlt), List.getElem?_append_left hlt]
  exact ⟨hcall, hpath, hid⟩

/-- Every command comes from a call, which is the one that gave it its identity. -/
theorem exists_registered {calls : List (Command σ)} {id : Nat} {command : Command σ}
    (h : (ofCalls calls).list[id]? = some command) : ∃ j, Registered calls j command id := by
  induction calls using List.reverseRecOn with
  | nil => simp [ofCalls, empty] at h
  | append_singleton calls call ih =>
    have hearlier (h : (ofCalls calls).list[id]? = some command) :
        ∃ j, Registered (calls ++ [call]) j command id :=
      let ⟨j, hj⟩ := ih h
      ⟨j, hj.append [call]⟩
    -- The last call failed and added nothing, or its command stands behind all others.
    rw [ofCalls_concat] at h
    by_cases hpath : call.template.path ∈ (ofCalls calls).catalog.paths
    · rw [attempt_of_mem hpath] at h
      exact hearlier h
    · rw [attempt_of_not_mem hpath] at h
      rcases Nat.lt_or_ge id (ofCalls calls).list.length with hlt | hge
      · rw [List.getElem?_append_left hlt] at h
        exact hearlier h
      · rw [List.getElem?_append_right hge] at h
        obtain ⟨hzero, rfl⟩ : id - (ofCalls calls).list.length = 0 ∧ call = command := by
          simpa [List.getElem?_singleton] using h
        refine ⟨calls.length, registered_iff.2 ?_⟩
        rw [List.take_left, List.getElem?_concat_length]
        refine ⟨rfl, hpath, ?_⟩
        simp only [Catalog.size, catalog, List.length_map]
        omega

/-- No two calls that succeed have the same path. -/
theorem Registered.unique {calls : List (Command σ)} {j k : Nat} {call other : Command σ}
    {id id' : Nat} (hj : Registered calls j call id) (hk : Registered calls k other id')
    (hpath : call.template.path = other.template.path) : j = k := by
  have hlater {j k : Nat} {call other : Command σ} {id id' : Nat}
      (hj : Registered calls j call id) (hk : Registered calls k other id') (hlt : j < k) :
      call.template.path ≠ other.template.path := by
    have hcall : call ∈ (ofCalls (calls.take k)).list := by
      refine (prefix_ofCalls_take calls hlt).subset ?_
      rw [hj.list_eq]
      exact List.mem_append_right _ List.mem_cons_self
    intro heq
    refine (registered_iff.1 hk).2.1 ?_
    rw [← heq]
    simp only [Catalog.paths, catalog, List.map_map]
    exact List.mem_map.2 ⟨call, hcall, rfl⟩
  rcases Nat.lt_trichotomy j k with hlt | heq | hgt
  · exact absurd hpath (hlater hj hk hlt)
  · exact heq
  · exact absurd hpath.symm (hlater hk hj hgt)

end Commands

end Abbrev
