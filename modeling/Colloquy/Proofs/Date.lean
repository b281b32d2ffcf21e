import Colloquy.Date
import Mathlib.Data.String.Basic

namespace Colloquy.Date

theorem readDigits?_append {ds : List Char} (acc : Nat) (rest : List Char)
    (h : ∀ c ∈ ds, c.isDigit = true) :
    readDigits? ds.length acc (ds ++ rest) = some (Nat.ofDigitChars 10 ds acc, rest) := by
  induction ds generalizing acc with
  | nil => rfl
  | cons c ds ih =>
    have hds : ∀ d ∈ ds, d.isDigit = true := fun d hd => h d (List.mem_cons_of_mem _ hd)
    simp only [List.length_cons, List.cons_append, readDigits?, h c List.mem_cons_self, if_true]
    rw [ih _ hds, Nat.ofDigitChars_cons]
    rfl

theorem isDigit_of_mem_digits {width n : Nat} {c : Char} (h : c ∈ digits width n) :
    c.isDigit = true := by
  rcases List.mem_append.mp h with h | h
  · rw [List.eq_of_mem_replicate h]
    rfl
  · exact Nat.isDigit_of_mem_toDigits (by decide) (by decide) h

theorem length_digits {width n : Nat} (hwidth : 0 < width) (h : n < 10 ^ width) :
    (digits width n).length = width := by
  have hlen := (Nat.length_toDigits_le_iff (by decide) hwidth).mpr h
  simp only [digits, List.length_append, List.length_replicate]
  omega

theorem ofDigitChars_replicate_zero (k : Nat) :
    Nat.ofDigitChars 10 (List.replicate k '0') 0 = 0 := by
  induction k with
  | zero => rfl
  | succ k ih => rw [List.replicate_succ, Nat.ofDigitChars_cons]; exact ih

theorem ofDigitChars_digits (width n : Nat) : Nat.ofDigitChars 10 (digits width n) 0 = n := by
  rw [digits, Nat.ofDigitChars_append, ofDigitChars_replicate_zero]
  exact Nat.ofDigitChars_toDigits (by decide) (by decide)

theorem readDigits?_digits {width n : Nat} (rest : List Char) (hwidth : 0 < width)
    (h : n < 10 ^ width) : readDigits? width 0 (digits width n ++ rest) = some (n, rest) := by
  have hdigits : ∀ c ∈ digits width n, c.isDigit = true := fun c => isDigit_of_mem_digits
  have hread := readDigits?_append 0 rest hdigits
  rwa [length_digits hwidth h, ofDigitChars_digits] at hread

theorem utf8Len_of_digits {cs : List Char} (h : ∀ c ∈ cs, c.isDigit = true) :
    String.utf8Len cs = cs.length := by
  induction cs with
  | nil => rfl
  | cons c rest ih =>
    have hc : c.utf8Size = 1 := by
      have hdigit := h c List.mem_cons_self
      simp only [Char.isDigit, Bool.and_eq_true, decide_eq_true_eq] at hdigit
      exact Char.utf8Size_eq_one_iff.mpr (UInt32.le_trans hdigit.2 (by decide))
    rw [String.utf8Len_cons, ih fun d hd => h d (List.mem_cons_of_mem _ hd), hc, List.length_cons]

theorem utf8Len_digits {width n : Nat} (hwidth : 0 < width) (h : n < 10 ^ width) :
    String.utf8Len (digits width n) = width := by
  rw [utf8Len_of_digits fun c => isDigit_of_mem_digits, length_digits hwidth h]

theorem bounds (d : Date) : d.year ≤ 9999 ∧ d.month ≤ 12 ∧ d.day ≤ 31 := by
  have h := d.isDay
  simp only [Calendar.isDay, Bool.and_eq_true, decide_eq_true_eq] at h
  have hday : Calendar.daysInMonth d.year d.month ≤ 31 := by
    unfold Calendar.daysInMonth
    split <;> split <;> omega
  omega

theorem toList_text (d : Date) :
    d.text.toList = digits 4 d.year ++ '-' :: digits 2 d.month ++ '-' :: digits 2 d.day := by
  simp [text]

theorem utf8ByteSize_text (d : Date) : d.text.utf8ByteSize = 10 := by
  obtain ⟨hyear, hmonth, hday⟩ := d.bounds
  rw [text, String.utf8ByteSize_ofList, List.append_assoc, List.cons_append, String.utf8Len_append,
    String.utf8Len_cons, String.utf8Len_append, String.utf8Len_cons,
    utf8Len_digits (by decide) (by omega), utf8Len_digits (by decide) (by omega),
    utf8Len_digits (by decide) (by omega)]
  rfl

theorem readMonthDate?_digits (d : Date) :
    readMonthDate? d.year true (digits 2 d.month ++ '-' :: digits 2 d.day) = some d := by
  obtain ⟨_, hmonth, hday⟩ := d.bounds
  have hmonthRead : readDigits? 2 0 (digits 2 d.month ++ '-' :: digits 2 d.day) =
      some (d.month, '-' :: digits 2 d.day) := readDigits?_digits _ (by decide) (by omega)
  have hdayRead : readDigits? 2 0 (digits 2 d.day) = some (d.day, []) := by
    simpa using readDigits?_digits [] (by decide : 0 < 2) (by omega : d.day < 10 ^ 2)
  simp [readMonthDate?, hmonthRead, hdayRead, skipHyphen?, ofParts?, d.isDay]

theorem digits_ne_cons {width n : Nat} {c : Char} {rest tail : List Char} (hwidth : 0 < width)
    (h : n < 10 ^ width) (hc : c.isDigit = false) : digits width n ++ rest ≠ c :: tail := by
  intro heq
  obtain ⟨first, others, hdigits⟩ :=
    List.exists_cons_of_length_pos (by rwa [length_digits hwidth h] : 0 < (digits width n).length)
  rw [hdigits, List.cons_append, List.cons.injEq] at heq
  have hfirst : first.isDigit = true :=
    isDigit_of_mem_digits (by rw [hdigits]; exact List.mem_cons_self)
  rw [heq.1, hc] at hfirst
  cases hfirst

/-- The form with hyphens is told from one without by the hyphen behind the year, and from that of a week
by the digit behind this. -/
theorem ofText?_text (d : Date) : ofText? d.text = some d := by
  obtain ⟨hyear, hmonth, hday⟩ := d.bounds
  unfold ofText?
  rw [utf8ByteSize_text, toList_text, List.append_assoc, List.cons_append,
    readDigits?_digits _ (by decide) (by omega)]
  simp only [Option.bind_eq_bind, Option.bind_some, List.head?_cons, beq_self_eq_true, if_true,
    List.drop_succ_cons, List.drop_zero]
  rw [if_neg (by decide)]
  split
  next heq => exact absurd heq (digits_ne_cons (by decide) (by omega) (by decide))
  next => exact readMonthDate?_digits d

end Colloquy.Date
