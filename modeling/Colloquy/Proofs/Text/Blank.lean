import Mathlib.Data.List.DropRight
import Colloquy.Text.Basic

namespace Colloquy.Text

variable {p : Char → Bool} {cs : List Char}

theorem dropWhile_eq_self_iff_head? :
    cs.dropWhile p = cs ↔ ∀ c, cs.head? = some c → p c = false := by
  cases cs with
  | nil => simp
  | cons c rest => simp [List.dropWhile_eq_self_iff]

theorem rdropWhile_eq_self_iff_getLast? :
    cs.rdropWhile p = cs ↔ ∀ c, cs.getLast? = some c → p c = false := by
  rw [← List.head?_reverse, ← dropWhile_eq_self_iff_head?, List.rdropWhile, List.reverse_eq_iff]

theorem trimBoth_eq_self_iff :
    trimBoth p cs = cs ↔ (∀ c, cs.head? = some c → p c = false) ∧
      ∀ c, cs.getLast? = some c → p c = false := by
  rw [← dropWhile_eq_self_iff_head?, ← rdropWhile_eq_self_iff_getLast?]
  constructor
  · intro h
    have htrim : (cs.dropWhile p).rdropWhile p = cs := h
    have hlength : cs.length ≤ (cs.dropWhile p).length := by
      have hle := (List.rdropWhile_prefix p (cs.dropWhile p)).length_le
      rwa [htrim] at hle
    have hdrop : cs.dropWhile p = cs := (List.dropWhile_suffix p).eq_of_length_le hlength
    rw [hdrop] at htrim
    exact ⟨hdrop, htrim⟩
  · rintro ⟨hdrop, hrdrop⟩
    rw [trimBoth, hdrop]
    exact hrdrop

theorem trimBoth_trimBoth (p : Char → Bool) (cs : List Char) :
    trimBoth p (trimBoth p cs) = trimBoth p cs := by
  have hprefix : trimBoth p cs <+: cs.dropWhile p := List.rdropWhile_prefix p _
  refine trimBoth_eq_self_iff.mpr ⟨?_, ?_⟩
  · intro c hc
    have hdrop : (cs.dropWhile p).dropWhile p = cs.dropWhile p := List.dropWhile_idempotent p cs
    obtain ⟨rest, hrest⟩ := hprefix
    exact dropWhile_eq_self_iff_head?.mp hdrop c (by simp [← hrest, hc])
  · exact rdropWhile_eq_self_iff_getLast?.mp (List.rdropWhile_idempotent p _)

theorem trimBoth_append {xs ys : List Char} (between : List Char) (hx : xs ≠ []) (hy : ys ≠ [])
    (htx : trimBoth p xs = xs) (hty : trimBoth p ys = ys) :
    trimBoth p (xs ++ between ++ ys) = xs ++ between ++ ys := by
  refine trimBoth_eq_self_iff.mpr ⟨?_, ?_⟩
  · intro c hc
    obtain ⟨d, rest, rfl⟩ := List.exists_cons_of_ne_nil hx
    exact (trimBoth_eq_self_iff.mp htx).1 c hc
  · intro c hc
    rw [List.getLast?_append_of_ne_nil _ hy] at hc
    exact (trimBoth_eq_self_iff.mp hty).2 c hc

theorem trimBoth_sublist (p : Char → Bool) (cs : List Char) : (trimBoth p cs).Sublist cs :=
  (List.rdropWhile_prefix p _).sublist.trans (List.dropWhile_sublist p)

theorem strip_strip (cs : List Char) : strip (strip cs) = strip cs :=
  trimBoth_trimBoth isBlank cs

theorem strip_sublist (cs : List Char) : (strip cs).Sublist cs :=
  trimBoth_sublist isBlank cs

theorem strip_eq_self {c d : Char} (hc : cs.head? = some c) (hcb : isBlank c = false)
    (hd : cs.getLast? = some d) (hdb : isBlank d = false) : strip cs = cs := by
  refine trimBoth_eq_self_iff.mpr ⟨?_, ?_⟩
  · intro e he
    exact Option.some.inj (hc.symm.trans he) ▸ hcb
  · intro e he
    exact Option.some.inj (hd.symm.trans he) ▸ hdb

end Colloquy.Text
