import Mathlib.Data.List.Induction
import Mathlib.Data.Nat.Digits.Defs
import TwoPass.Number.Decimal
import TwoPass.Number.Hex

/-
  What written numbers denote. A decimal operand denotes the value of its digits in base ten
  (`Decimal.Denotes`), and `Decimal.read` finds exactly that value; one of too many digits is
  `Decimal.Overlong` and refused for that alone. Hex digits of either case are read as their value
  in base sixteen (`Hex.read?_eq_some_iff`). A number written in `w` or more hex digits is read back
  as itself, and it keeps to the width `w` exactly if it is below `16 ^ w`: this is what makes the
  fixed fields of a record hold. Digits that are read and written again are the same in upper case
  (`Hex.padded_value`), and of the texts in upper case one denotes a given number
  (`Hex.eq_digits_iff`).
-/

namespace TwoPass

/-- The first of some digits counts most. -/
theorem ofDigits_reverse_cons (base : Nat) (digit : Char → Nat) (c : Char) (cs : Text) :
    Nat.ofDigits base ((c :: cs).reverse.map digit) =
      digit c * base ^ cs.length + Nat.ofDigits base (cs.reverse.map digit) := by
  rw [List.reverse_cons, List.map_append, Nat.ofDigits_append]
  simp only [List.map_cons, List.map_nil, Nat.ofDigits_singleton, List.length_map,
    List.length_reverse]
  rw [Nat.mul_comm, Nat.add_comm]

/-! ## Decimal -/

namespace Decimal

/-- The value of decimal digits, the highest first. -/
def value (ds : Text) : Nat := Nat.ofDigits 10 (ds.reverse.map fun c => c.toNat - 48)

theorem value_cons (c : Char) (cs : Text) :
    value (c :: cs) = (c.toNat - 48) * 10 ^ cs.length + value cs :=
  ofDigits_reverse_cons 10 _ c cs

-- In parentheses, so that it does not become a definitional rewrite rule: checking it as one
-- would unfold the product.
theorem valueFrom_cons (n : Nat) (c : Char) (cs : Text) :
    valueFrom n (c :: cs) = valueFrom (10 * n + (c.toNat - 48)) cs := (rfl)

theorem valueFrom_eq (n : Nat) (ds : Text) : valueFrom n ds = n * 10 ^ ds.length + value ds := by
  induction ds generalizing n with
  | nil => rw [value, List.length_nil, Nat.pow_zero, Nat.mul_one]; rfl
  | cons c cs ih =>
    rw [valueFrom_cons, ih, value_cons, List.length_cons, Nat.pow_succ, Nat.add_mul, Nat.add_assoc,
      Nat.mul_comm 10 n, Nat.mul_assoc, Nat.mul_comm 10]

/-- `t` is an optional minus sign and some digits, at most `digitLimit`, and denotes `v`. -/
inductive Denotes : Text → Int → Prop
  | plain {ds : Text} (some : ds ≠ []) (few : ds.length ≤ digitLimit)
      (digits : ∀ c ∈ ds, isDigit c = true) : Denotes ds (value ds)
  | negative {ds : Text} (some : ds ≠ []) (few : ds.length ≤ digitLimit)
      (digits : ∀ c ∈ ds, isDigit c = true) : Denotes ('-' :: ds) (-(value ds : Int))

theorem splitSign_of_ne {t : Text} (h : t.head? ≠ some '-') : splitSign t = (false, t) := by
  unfold splitSign
  split
  · exact absurd rfl h
  · rfl

theorem head?_ne_minus {ds : Text} (h : ∀ c ∈ ds, isDigit c = true) : ds.head? ≠ some '-' := by
  intro hm
  have := h '-' (List.mem_of_mem_head? hm)
  revert this
  decide

theorem read_eq_number_split {t ds : Text} {negative : Bool} {v : Int}
    (hs : splitSign t = (negative, ds)) :
    read t = .number v ↔ ds ≠ [] ∧ ds.length ≤ digitLimit ∧ (∀ c ∈ ds, isDigit c = true) ∧
      v = if negative then -(value ds : Int) else value ds := by
  unfold read
  rw [hs]
  simp only [valueFrom_eq, Nat.zero_mul, Nat.zero_add]
  by_cases hne : ds = []
  · simp [hne]
  · by_cases hd : ds.all isDigit = true
    · have hd' := List.all_eq_true.mp hd
      by_cases hl : digitLimit < ds.length
      · simp [hne, hd, hl, Nat.not_le.mpr hl]
      · have hc : (ds.isEmpty || !ds.all isDigit) = false := by simp [hne, hd]
        have hr : (if negative = true then Reading.number (-(value ds : Int))
            else Reading.number (value ds)) =
            Reading.number (if negative = true then -(value ds : Int) else value ds) := by
          cases negative <;> rfl
        rw [hc, if_neg Bool.false_ne_true, if_neg hl, hr, Reading.number.injEq]
        exact ⟨fun h => ⟨hne, Nat.not_lt.mp hl, hd', h.symm⟩, fun h => h.2.2.2.symm⟩
    · have hd' : ¬ ∀ c ∈ ds, isDigit c = true := fun h => hd (List.all_eq_true.mpr h)
      simp [hd, hd']

/-- A text is read as a number exactly if it denotes one, and then as that number. -/
theorem read_eq_number_iff {t : Text} {v : Int} : read t = .number v ↔ Denotes t v := by
  constructor
  · intro h
    by_cases hm : t.head? = some '-'
    · obtain ⟨ds, rfl⟩ := List.head?_eq_some_iff.mp hm
      obtain ⟨hne, hl, hd, rfl⟩ := (read_eq_number_split (t := _ :: _) rfl).mp h
      exact .negative hne hl hd
    · obtain ⟨hne, hl, hd, rfl⟩ := (read_eq_number_split (splitSign_of_ne hm)).mp h
      exact .plain hne hl hd
  · intro h
    cases h with
    | plain hne hl hd =>
      exact (read_eq_number_split (splitSign_of_ne (head?_ne_minus hd))).mpr ⟨hne, hl, hd, rfl⟩
    | negative hne hl hd =>
      exact (read_eq_number_split (t := _ :: _) rfl).mpr ⟨hne, hl, hd, rfl⟩

/-- `t` is an optional minus sign and `n` digits, more than are converted. -/
inductive Overlong : Text → Nat → Prop
  | plain {ds : Text} (many : digitLimit < ds.length)
      (digits : ∀ c ∈ ds, isDigit c = true) : Overlong ds ds.length
  | negative {ds : Text} (many : digitLimit < ds.length)
      (digits : ∀ c ∈ ds, isDigit c = true) : Overlong ('-' :: ds) ds.length

theorem Overlong.lt_length {t : Text} {n : Nat} (h : Overlong t n) : digitLimit < t.length := by
  cases h with
  | plain many _ => exact many
  | negative many _ => exact Nat.lt_succ_of_lt many

theorem read_eq_tooLong_split {t ds : Text} {negative : Bool} {n : Nat}
    (hs : splitSign t = (negative, ds)) :
    read t = .tooLong n ↔
      digitLimit < ds.length ∧ (∀ c ∈ ds, isDigit c = true) ∧ n = ds.length := by
  unfold read
  rw [hs]
  dsimp only
  by_cases hc : (ds.isEmpty || !ds.all isDigit) = true
  · rw [if_pos hc]
    refine iff_of_false nofun fun h => ?_
    rw [List.all_eq_true.mpr h.2.1, List.isEmpty_eq_false_iff.mpr ?_] at hc
    · exact Bool.false_ne_true hc
    · intro hnil
      rw [hnil] at h
      exact Nat.not_lt_zero _ h.1
  · have hd : ∀ c ∈ ds, isDigit c = true := by simp_all
    rw [if_neg hc]
    by_cases hl : digitLimit < ds.length
    · rw [if_pos hl, Reading.tooLong.injEq]
      exact ⟨fun h => ⟨hl, hd, h.symm⟩, fun h => h.2.2.symm⟩
    · rw [if_neg hl]
      refine iff_of_false ?_ fun h => hl h.1
      split <;> exact nofun

/-- A text is refused for its length exactly if it has too many digits and would denote a number. -/
theorem read_eq_tooLong_iff {t : Text} {n : Nat} : read t = .tooLong n ↔ Overlong t n := by
  constructor
  · intro h
    by_cases hm : t.head? = some '-'
    · obtain ⟨ds, rfl⟩ := List.head?_eq_some_iff.mp hm
      obtain ⟨hl, hd, rfl⟩ := (read_eq_tooLong_split (t := _ :: _) rfl).mp h
      exact .negative hl hd
    · obtain ⟨hl, hd, rfl⟩ := (read_eq_tooLong_split (splitSign_of_ne hm)).mp h
      exact .plain hl hd
  · intro h
    cases h with
    | plain hl hd =>
      exact (read_eq_tooLong_split (splitSign_of_ne (head?_ne_minus hd))).mpr ⟨hl, hd, rfl⟩
    | negative hl hd => exact (read_eq_tooLong_split (t := _ :: _) rfl).mpr ⟨hl, hd, rfl⟩

end Decimal

/-! ## Hexadecimal -/

namespace Hex

theorem value?_digit {n : Nat} (h : n < 16) : value? (digit n) = some n := by
  have : ∀ m : Fin 16, value? (digit m) = some m.val := by decide
  exact this ⟨n, h⟩

theorem isDigit_digit {n : Nat} (h : n < 16) : isDigit (digit n) = true := by
  unfold isDigit
  rw [value?_digit h]
  rfl

theorem value?_lt {c : Char} {d : Nat} (h : value? c = some d) : d < 16 := by
  simp only [value?] at h
  split at h
  · cases h; omega
  · split at h
    · cases h; omega
    · split at h
      · cases h; omega
      · cases h

theorem range_of_isDigit {c : Char} (h : isDigit c = true) : 48 ≤ c.toNat ∧ c.toNat ≤ 102 := by
  obtain ⟨n, hn⟩ := Option.isSome_iff_exists.mp h
  simp only [value?] at hn
  split at hn
  · omega
  · split at hn
    · omega
    · split at hn
      · omega
      · cases hn

@[simp] theorem length_digits (w n : Nat) : (digits w n).length = w := by
  induction w generalizing n with
  | zero => rfl
  | succ w ih => rw [digits, List.length_append, ih]; rfl

theorem isDigit_of_mem_digits {w n : Nat} {c : Char} (h : c ∈ digits w n) : isDigit c = true := by
  induction w generalizing n with
  | zero => exact absurd h List.not_mem_nil
  | succ w ih =>
    rw [digits, List.mem_append, List.mem_singleton] at h
    rcases h with h | rfl
    · exact ih h
    · exact isDigit_digit (Nat.mod_lt _ (by decide))

/-- Digits are written in upper case. -/
theorem mem_upper_of_mem_digits {w n : Nat} {c : Char} (h : c ∈ digits w n) :
    c ∈ "0123456789ABCDEF".toList := by
  have hdigit : ∀ m : Fin 16, digit m ∈ "0123456789ABCDEF".toList := by decide
  induction w generalizing n with
  | zero => exact absurd h List.not_mem_nil
  | succ w ih =>
    rw [digits, List.mem_append, List.mem_singleton] at h
    rcases h with h | rfl
    · exact ih h
    · exact hdigit ⟨n % 16, Nat.mod_lt _ (by decide)⟩

theorem isDigit_of_mem_padded {w n : Nat} {c : Char} (h : c ∈ padded w n) : isDigit c = true :=
  isDigit_of_mem_digits h

theorem length_padded (w n : Nat) : (padded w n).length = max w (length n) := length_digits _ _

/-- A number has at most `w` digits exactly if it is below `16 ^ w`. -/
theorem length_le_iff {w n : Nat} (hw : 0 < w) : length n ≤ w ↔ n < 16 ^ w := by
  unfold length
  rw [show (16 : Nat) ^ w = 2 ^ (4 * w) by rw [Nat.pow_mul]]
  by_cases hn : n = 0
  · subst hn
    have : 0 < 2 ^ (4 * w) := Nat.two_pow_pos _
    simp only [show Nat.log2 0 = 0 by decide]
    omega
  · rw [← Nat.log2_lt hn]
    omega

theorem padded_of_lt {w n : Nat} (hw : 0 < w) (h : n < 16 ^ w) : padded w n = digits w n := by
  unfold padded
  rw [Nat.max_eq_left ((length_le_iff hw).mpr h)]

theorem signed_natCast (w n : Nat) : signed w (n : Int) = padded w n := by
  unfold signed
  rw [if_neg (by omega), Int.toNat_natCast]

/-! ### Reading digits -/

theorem valueFrom?_append (n : Nat) (s t : Text) :
    valueFrom? n (s ++ t) = (valueFrom? n s).bind fun m => valueFrom? m t := by
  induction s generalizing n with
  | nil => rfl
  | cons c cs ih =>
    rw [List.cons_append, valueFrom?, valueFrom?]
    cases value? c with
    | none => rfl
    | some d => exact ih _

theorem valueFrom?_digits (m w n : Nat) :
    valueFrom? m (digits w n) = some (m * 16 ^ w + n % 16 ^ w) := by
  induction w generalizing n with
  | zero => simp [digits, valueFrom?, Nat.mod_one]
  | succ w ih =>
    rw [digits, valueFrom?_append, ih, Option.bind_some, valueFrom?,
      value?_digit (Nat.mod_lt _ (by decide)), Option.bind_some, valueFrom?]
    congr 1
    have hsplit : n % 16 ^ (w + 1) = 16 * (n / 16 % 16 ^ w) + n % 16 := by
      rw [Nat.pow_succ, Nat.mul_comm (16 ^ w) 16, Nat.mod_mul, Nat.add_comm]
    rw [hsplit, Nat.mul_add, Nat.pow_succ, Nat.mul_left_comm 16 m, Nat.mul_comm 16 (16 ^ w),
      Nat.add_assoc]

theorem read?_eq_of_ne_nil {t : Text} (h : t ≠ []) : read? t = valueFrom? 0 t := by
  cases t with
  | nil => exact absurd rfl h
  | cons c cs => rfl

theorem read?_digits {w n : Nat} (hw : 0 < w) (h : n < 16 ^ w) : read? (digits w n) = some n := by
  have hne : digits w n ≠ [] := by
    intro he
    have := length_digits w n
    rw [he, List.length_nil] at this
    omega
  rw [read?_eq_of_ne_nil hne, valueFrom?_digits, Nat.zero_mul, Nat.zero_add, Nat.mod_eq_of_lt h]

/-- What is written is read back, whatever the width. -/
theorem read?_padded (w n : Nat) : read? (padded w n) = some n := by
  have hpos : 0 < max w (length n) := Nat.lt_of_lt_of_le (Nat.succ_pos _) (Nat.le_max_right _ _)
  exact read?_digits hpos ((length_le_iff hpos).mp (Nat.le_max_right _ _))

theorem padded_inj {w m n : Nat} : padded w m = padded w n ↔ m = n := by
  refine ⟨fun h => ?_, congrArg _⟩
  have hread := read?_padded w m
  rw [h, read?_padded] at hread
  exact (Option.some.inj hread).symm

theorem valueFrom?_lt {m n : Nat} {t : Text} (h : valueFrom? m t = some n) :
    n < (m + 1) * 16 ^ t.length := by
  induction t generalizing m with
  | nil =>
    cases h
    rw [List.length_nil]
    omega
  | cons c cs ih =>
    obtain ⟨d, hd, hrest⟩ := Option.bind_eq_some_iff.mp h
    have hlt := value?_lt hd
    have hle : 16 * m + d + 1 ≤ 16 * (m + 1) := by omega
    calc n < (16 * m + d + 1) * 16 ^ cs.length := ih hrest
      _ ≤ 16 * (m + 1) * 16 ^ cs.length := Nat.mul_le_mul_right _ hle
      _ = (m + 1) * 16 ^ (c :: cs).length := by
        rw [List.length_cons, Nat.pow_succ, Nat.mul_comm 16, Nat.mul_assoc, Nat.mul_comm 16]

/-! ### The value of digits -/

/-- The digits of either case. -/
def alphabet : Text := "0123456789ABCDEFabcdef"

/-- What a digit stands for. -/
def digitValue (c : Char) : Nat := "0123456789ABCDEF".toList.idxOf c.toUpper

/-- The value of digits, the highest first. -/
def value (t : Text) : Nat := Nat.ofDigits 16 (t.reverse.map digitValue)

/-- A field of as many digits as its width. -/
def IsField (width : Nat) (t : Text) : Prop := t.length = width ∧ ∀ c ∈ t, c ∈ alphabet

theorem value?_eq (c : Char) :
    value? c = if c ∈ alphabet then some (digitValue c) else none := by
  by_cases hc : c.toNat < 128
  · have hascii : ∀ n : Fin 128, value? (Char.ofNat n) =
        if Char.ofNat n ∈ alphabet then some (digitValue (Char.ofNat n)) else none := by
      decide +kernel
    have hn := hascii ⟨c.toNat, hc⟩
    rwa [Char.ofNat_toNat] at hn
  · have hout : c ∉ alphabet := by
      have hbelow : alphabet.all (·.toNat < 128) = true := by decide
      exact fun hm => hc (of_decide_eq_true (List.all_eq_true.mp hbelow c hm))
    rw [if_neg hout]
    simp only [value?]
    rw [if_neg (by omega), if_neg (by omega), if_neg (by omega)]

theorem isDigit_iff {c : Char} : isDigit c = true ↔ c ∈ alphabet := by
  unfold isDigit
  rw [value?_eq]
  split <;> simp [*]

theorem value_cons (c : Char) (cs : Text) :
    value (c :: cs) = digitValue c * 16 ^ cs.length + value cs :=
  ofDigits_reverse_cons 16 _ c cs

theorem valueFrom?_eq_some_iff {n m : Nat} {t : Text} : valueFrom? n t = some m ↔
    (∀ c ∈ t, c ∈ alphabet) ∧ m = n * 16 ^ t.length + value t := by
  induction t generalizing n with
  | nil =>
    have hnil : value [] = 0 := rfl
    simp [valueFrom?, hnil, eq_comm]
  | cons c cs ih =>
    rw [valueFrom?, value?_eq, List.forall_mem_cons]
    by_cases hc : c ∈ alphabet
    · have hsum : (16 * n + digitValue c) * 16 ^ cs.length + value cs =
          n * 16 ^ (c :: cs).length + value (c :: cs) := by
        rw [value_cons, List.length_cons, Nat.pow_succ, Nat.add_mul, Nat.add_assoc,
          Nat.mul_comm 16 n, Nat.mul_assoc, Nat.mul_comm 16]
      rw [if_pos hc, Option.bind_some, ih, hsum, and_iff_right hc]
    · simp [hc]

/-- A text is read as a number exactly if it consists of one or more digits, and then as their
    value. -/
theorem read?_eq_some_iff {t : Text} {n : Nat} : read? t = some n ↔
    t ≠ [] ∧ (∀ c ∈ t, c ∈ alphabet) ∧ n = value t := by
  cases t with
  | nil => simp [read?]
  | cons c cs =>
    rw [read?_eq_of_ne_nil (List.cons_ne_nil c cs), valueFrom?_eq_some_iff, Nat.zero_mul,
      Nat.zero_add, and_iff_right (List.cons_ne_nil c cs)]

/-! ### Digits written again -/

theorem value_lt {t : Text} (h : ∀ c ∈ t, c ∈ alphabet) : value t < 16 ^ t.length := by
  have hread : valueFrom? 0 t = some (value t) :=
    valueFrom?_eq_some_iff.mpr ⟨h, by rw [Nat.zero_mul, Nat.zero_add]⟩
  have hlt := valueFrom?_lt hread
  rwa [Nat.zero_add, Nat.one_mul] at hlt

theorem value_concat (t : Text) (c : Char) : value (t ++ [c]) = 16 * value t + digitValue c := by
  unfold value
  rw [List.reverse_append, List.reverse_singleton, List.singleton_append, List.map_cons,
    Nat.ofDigits_cons, Nat.add_comm]

/-- The digit of a value is the upper case of every digit that has this value. -/
theorem digit_digitValue {c : Char} (h : c ∈ alphabet) :
    digitValue c < 16 ∧ digit (digitValue c) = c.toUpper := by
  have hall : (alphabet.all fun c => digitValue c < 16 ∧ digit (digitValue c) = c.toUpper) = true :=
    by decide
  exact of_decide_eq_true (List.all_eq_true.mp hall c h)

theorem digits_value {t : Text} (h : ∀ c ∈ t, c ∈ alphabet) :
    digits t.length (value t) = t.map Char.toUpper := by
  induction t using List.reverseRecOn with
  | nil => rfl
  | append_singleton t c ih =>
    obtain ⟨ht, hc⟩ := List.forall_mem_append.mp h
    obtain ⟨hlt, hdigit⟩ := digit_digitValue (hc c List.mem_cons_self)
    have hhigh : (16 * value t + digitValue c) / 16 = value t := by omega
    have hlow : (16 * value t + digitValue c) % 16 = digitValue c := by omega
    rw [List.length_append, List.length_singleton, digits, value_concat, hhigh, hlow, ih ht, hdigit,
      List.map_append, List.map_singleton]

/-- Digits that are read and written again at their width are in upper case. -/
theorem padded_value {t : Text} (hne : t ≠ []) (h : ∀ c ∈ t, c ∈ alphabet) :
    padded t.length (value t) = t.map Char.toUpper := by
  rw [padded_of_lt (List.length_pos_iff.mpr hne) (value_lt h), digits_value h]

theorem isSome_read?_iff (t : Text) :
    (read? t).isSome = true ↔ t ≠ [] ∧ ∀ c ∈ t, isDigit c = true := by
  rw [Option.isSome_iff_exists]
  simp only [read?_eq_some_iff, isDigit_iff, exists_and_left, exists_eq, and_true]

/-! ### Digits in upper case -/

/-- The digits that numbers are written in. -/
def upper : Text := "0123456789ABCDEF"

theorem mem_alphabet_of_mem_upper {c : Char} (h : c ∈ upper) : c ∈ alphabet ∧ c.toUpper = c := by
  have hall : (upper.all fun c => c ∈ alphabet ∧ c.toUpper = c) = true := by decide
  exact of_decide_eq_true (List.all_eq_true.mp hall c h)

theorem value_digits (w n : Nat) : value (digits w n) = n % 16 ^ w := by
  have hread := (valueFrom?_eq_some_iff.mp (valueFrom?_digits 0 w n)).2
  rw [Nat.zero_mul, Nat.zero_add, Nat.zero_mul, Nat.zero_add] at hread
  exact hread.symm

/-- Of the texts of `w` upper-case digits, one has a given value below `16 ^ w`. -/
theorem eq_digits_iff {w n : Nat} (hn : n < 16 ^ w) {t : Text} :
    t = digits w n ↔ t.length = w ∧ (∀ c ∈ t, c ∈ upper) ∧ value t = n := by
  constructor
  · rintro rfl
    refine ⟨length_digits w n, fun c hc => mem_upper_of_mem_digits hc, ?_⟩
    rw [value_digits, Nat.mod_eq_of_lt hn]
  · rintro ⟨rfl, hupper, rfl⟩
    rw [digits_value fun c hc => (mem_alphabet_of_mem_upper (hupper c hc)).1]
    refine (List.map_id t).symm.trans (List.map_congr_left fun c hc => ?_)
    exact (mem_alphabet_of_mem_upper (hupper c hc)).2.symm

end Hex

end TwoPass
