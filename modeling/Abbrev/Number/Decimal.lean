/-! Decimal text of natural numbers and integers. Reading is the inverse of writing; the laws stand
beside the definitions. -/

namespace Abbrev.Number

def digitChar (d : Nat) : Char := Char.ofNat ('0'.toNat + d)

def digitValue (c : Char) : Nat := c.toNat - '0'.toNat

/-- The decimal digits of a number, without leading zeros. -/
def decimal (n : Nat) : List Char :=
  if n < 10 then [digitChar n] else decimal (n / 10) ++ [digitChar (n % 10)]

/-- The number that a list of decimal digits writes. -/
def ofDigits (s : List Char) : Nat :=
  s.foldl (fun n c => 10 * n + digitValue c) 0

theorem ofDigits_concat (s : List Char) (c : Char) :
    ofDigits (s ++ [c]) = 10 * ofDigits s + digitValue c := by
  simp [ofDigits]

theorem digitValue_digitChar : ∀ {d : Nat}, d < 10 → digitValue (digitChar d) = d := by decide

theorem isDigit_digitChar : ∀ {d : Nat}, d < 10 → (digitChar d).isDigit = true := by decide

theorem toNat_of_isDigit {c : Char} (h : c.isDigit = true) : 48 ≤ c.toNat ∧ c.toNat ≤ 57 := by
  rw [Char.isDigit, Bool.and_eq_true, decide_eq_true_eq, decide_eq_true_eq] at h
  exact ⟨UInt32.le_iff_toNat_le.1 h.1, UInt32.le_iff_toNat_le.1 h.2⟩

theorem digitChar_digitValue {c : Char} (h : c.isDigit = true) : digitChar (digitValue c) = c := by
  have hcode : '0'.toNat + digitValue c = c.toNat := Nat.add_sub_cancel' (toNat_of_isDigit h).1
  rw [digitChar, hcode, Char.ofNat_toNat]

theorem digitValue_lt {c : Char} (h : c.isDigit = true) : digitValue c < 10 := by
  have hrange := toNat_of_isDigit h
  have hzero : digitValue c = c.toNat - 48 := rfl
  omega

theorem ofDigits_decimal (n : Nat) : ofDigits (decimal n) = n := by
  fun_induction decimal n with
  | case1 n h => simp [ofDigits, digitValue_digitChar h]
  | case2 n h ih =>
    rw [ofDigits_concat, ih, digitValue_digitChar (Nat.mod_lt n (by decide))]
    omega

theorem all_isDigit_decimal (n : Nat) : (decimal n).all Char.isDigit = true := by
  fun_induction decimal n with
  | case1 n h => simp [isDigit_digitChar h]
  | case2 n h ih => simp [ih, isDigit_digitChar (Nat.mod_lt n (by decide))]

theorem decimal_ne_nil (n : Nat) : decimal n ≠ [] := by
  rw [decimal]; split <;> simp

/-- One or more decimal digits. -/
def natural? (s : List Char) : Option Nat :=
  if !s.isEmpty && s.all Char.isDigit then some (ofDigits s) else none

@[simp] theorem natural?_decimal (n : Nat) : natural? (decimal n) = some n := by
  simp [natural?, decimal_ne_nil, all_isDigit_decimal, ofDigits_decimal]

theorem natural?_eq_some_iff {s : List Char} {n : Nat} :
    natural? s = some n ↔ s ≠ [] ∧ (∀ c ∈ s, c.isDigit = true) ∧ ofDigits s = n := by
  simp [natural?, and_assoc]

/-- The digits of the number that a text writes are the text without its leading zeros. -/
theorem decimal_suffix {n : Nat} {s : List Char} (h : natural? s = some n) : decimal n <:+ s := by
  obtain ⟨hne, hdigits, hvalue⟩ := natural?_eq_some_iff.1 h
  clear h
  fun_induction decimal n generalizing s with
  | case1 n hn =>
    obtain ⟨t, c, rfl⟩ : ∃ t c, s = t ++ [c] := ⟨_, _, (List.dropLast_concat_getLast hne).symm⟩
    have hc := hdigits c (by simp)
    rw [ofDigits_concat] at hvalue
    have hlast : n = digitValue c := by omega
    rw [hlast, digitChar_digitValue hc]
    exact List.suffix_append t [c]
  | case2 n hn ih =>
    obtain ⟨t, c, rfl⟩ : ∃ t c, s = t ++ [c] := ⟨_, _, (List.dropLast_concat_getLast hne).symm⟩
    have hc := hdigits c (by simp)
    have hlt := digitValue_lt hc
    rw [ofDigits_concat] at hvalue
    have hlast : n % 10 = digitValue c := by omega
    have hfront : ofDigits t = n / 10 := by omega
    have ht : t ≠ [] := by
      rintro rfl
      have hzero : ofDigits [] = 0 := rfl
      omega
    obtain ⟨zeros, hzeros⟩ := ih ht (fun d hd => hdigits d (List.mem_append_left _ hd)) hfront
    refine ⟨zeros, ?_⟩
    rw [hlast, digitChar_digitValue hc, ← List.append_assoc, hzeros]

/-- A sign written in front, and what follows it. -/
def takeSign : List Char → Option Bool × List Char
  | '-' :: s => (some true, s)
  | '+' :: s => (some false, s)
  | s => (none, s)

theorem takeSign_suffix (s : List Char) : (takeSign s).2 <:+ s := by
  unfold takeSign
  split
  · exact List.suffix_cons _ _
  · exact List.suffix_cons _ _
  · exact List.suffix_refl _

theorem eq_cons_of_takeSign {s t : List Char} (h : takeSign s = (some true, t)) : s = '-' :: t := by
  unfold takeSign at h
  split at h
  · cases h
    rfl
  · cases h
  · cases h

/-- Decimal digits after at most one sign. -/
def integer? (s : List Char) : Option Int :=
  match takeSign s with
  | (some true, t) => (natural? t).map fun n => -(n : Int)
  | (_, t) => (natural? t).map Int.ofNat

def integer (n : Int) : List Char :=
  if n < 0 then '-' :: decimal n.natAbs else decimal n.natAbs

theorem takeSign_decimal (n : Nat) : takeSign (decimal n) = (none, decimal n) := by
  have hdigits := all_isDigit_decimal n
  unfold takeSign
  split <;> simp_all

@[simp] theorem integer?_integer (n : Int) : integer? (integer n) = some n := by
  rw [integer]
  split
  · simp only [integer?, takeSign, natural?_decimal]
    exact congrArg some (show -(n.natAbs : Int) = n by omega)
  · simp only [integer?, takeSign_decimal, natural?_decimal]
    exact congrArg some (show (n.natAbs : Int) = n by omega)

theorem mem_integer {n : Int} {c : Char} (h : c ∈ integer n) : c = '-' ∨ c.isDigit = true := by
  have hdigit : ∀ d ∈ decimal n.natAbs, d.isDigit = true :=
    List.all_eq_true.1 (all_isDigit_decimal _)
  rw [integer] at h
  split at h
  · exact (List.mem_cons.1 h).imp_right (hdigit c)
  · exact .inr (hdigit c h)

theorem integer_natCast (n : Nat) : integer n = decimal n := by
  rw [integer, if_neg (by omega), Int.natAbs_natCast]

theorem integer_neg_subset (n : Nat) : integer (-(n : Int)) ⊆ '-' :: decimal n := by
  rw [integer, Int.natAbs_neg, Int.natAbs_natCast]
  split
  · exact List.Subset.refl _
  · exact List.subset_cons_self _ _

/-- An integer is written with characters that it was read from. -/
theorem integer_subset {n : Int} {s : List Char} (h : integer? s = some n) : integer n ⊆ s := by
  rw [integer?] at h
  split at h
  · rename_i t hsign
    obtain ⟨_, hvalue, rfl⟩ := Option.map_eq_some_iff.1 h
    obtain ⟨k, hk, ⟨⟩⟩ := Option.bind_eq_some_iff.1 hvalue
    rw [eq_cons_of_takeSign hsign]
    exact List.Subset.trans (integer_neg_subset k)
      (List.cons_subset_cons _ (decimal_suffix hk).subset)
  · rename_i sign t _ hsign
    obtain ⟨k, hk, rfl⟩ := Option.map_eq_some_iff.1 h
    have hrest : t <:+ s := by
      rw [show t = (takeSign s).2 by rw [hsign]]
      exact takeSign_suffix s
    rw [Int.ofNat_eq_natCast, integer_natCast]
    exact ((decimal_suffix hk).trans hrest).subset

theorem integer_ne_nil (n : Int) : integer n ≠ [] := by
  rw [integer]
  split
  · exact List.cons_ne_nil _ _
  · exact decimal_ne_nil _

end Abbrev.Number
