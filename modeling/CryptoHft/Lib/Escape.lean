import Mathlib.Data.List.Basic
import Mathlib.Data.List.Infix
import Mathlib.Tactic.Common

/-!
# Escaping one symbol by two

`escape` writes a symbol `c` as the pair `a b` and leaves every other symbol alone; `unescape` reads from left to right
and puts `c` for each pair that it meets, so that no symbol belongs to two pairs.

* Unescaping undoes escaping on the words without the pair (`unescape_escape`). Where `c` is neither `a` nor `b` it
  leaves no pair (`not_infix_unescape`); every pair replaced makes the word one symbol shorter (`length_unescape`).
* The same in place: the loop looks for the next pair from its position on, replaces it, and looks on from the place of
  the replacement, without moving past it. It halts, after as many turns as there are pairs to replace, with the word
  unescaped (`halts_turn`), and so the recursive program gives that word (`replaceLoop_eq`).
-/

namespace Escape

variable {α : Type} [DecidableEq α] (a b c : α)

def escape (s : List α) : List α := s.flatMap fun x => if x = c then [a, b] else [x]

def unescape : List α → List α
  | x :: y :: rest => if x = a ∧ y = b then c :: unescape rest else x :: unescape (y :: rest)
  | s => s

/-- The pairs that `unescape` replaces. -/
def pairs : List α → Nat
  | x :: y :: rest => if x = a ∧ y = b then pairs rest + 1 else pairs (y :: rest)
  | _ => 0

/-! ## The loop -/

/-- The first place from `pos` on where the pair stands. -/
def find (s : List α) (pos : Nat) : Option Nat :=
  (List.range s.length).find? fun i => pos ≤ i && [a, b].isPrefixOf (s.drop i)

/-- The word with `c` in place of the two symbols at `i`. -/
def replaceAt (s : List α) (i : Nat) : List α := s.take i ++ c :: s.drop (i + 2)

/-- One turn of the loop: the pair found is replaced, and the position stays at the replacement. -/
def turn (state : List α × Nat) : Option (List α × Nat) :=
  (find a b state.1 state.2).map fun i => (replaceAt c state.1 i, i)

/-- From the first state the turns lead, in so many turns, to the second, where there is none left to make. -/
inductive Halts {σ : Type} (turn : σ → Option σ) : σ → Nat → σ → Prop
  | done {s : σ} (h : turn s = none) : Halts turn s 0 s
  | next {s s' s'' : σ} {n : Nat} (h : turn s = some s') (hr : Halts turn s' n s'') : Halts turn s (n + 1) s''

variable {a b c} {s : List α} {pos i : Nat}

/-- The place found splits the word: what is before the position, a stretch where no pair starts, the pair, the rest. -/
theorem find_eq_some (h : find a b s pos = some i) :
    ∃ u v rest, s = u ++ (v ++ a :: b :: rest) ∧ u.length = pos ∧ u.length + v.length = i ∧
      ∀ j < v.length, ¬ [a, b] <+: (v ++ a :: b :: rest).drop j := by
  obtain ⟨hi, hlt, hfirst⟩ := List.find?_range_eq_some.1 h
  simp only [Bool.and_eq_true, decide_eq_true_eq, List.isPrefixOf_iff_prefix, List.mem_range] at hi hlt
  obtain ⟨hpos, rest, hrest⟩ := hi
  have hdrop : s.drop pos = (s.drop pos).take (i - pos) ++ a :: b :: rest := by
    have hi : pos + (i - pos) = i := by omega
    conv_lhs => rw [← List.take_append_drop (i - pos) (s.drop pos), List.drop_drop, hi, ← hrest]
    rfl
  refine ⟨s.take pos, (s.drop pos).take (i - pos), rest, ?_, ?_, ?_, ?_⟩
  · rw [← hdrop, List.take_append_drop]
  · rw [List.length_take]
    omega
  · rw [List.length_take, List.length_take, List.length_drop]
    omega
  · intro j hj hprefix
    rw [← hdrop, List.drop_drop] at hprefix
    rw [List.length_take, List.length_drop] at hj
    have hnot := hfirst (pos + j) (by omega)
    rw [List.isPrefixOf_iff_prefix.2 hprefix] at hnot
    simp at hnot

theorem find_eq_none (h : find a b s pos = none) : ¬ [a, b] <:+: s.drop pos := by
  rintro ⟨u, v, huv⟩
  have hdrop : s.drop (pos + u.length) = a :: b :: v := by
    rw [← List.drop_drop, ← huv]
    simp
  have hlt : pos + u.length < s.length := by
    by_contra hge
    rw [List.drop_eq_nil_of_le (by omega)] at hdrop
    cases hdrop
  have hnot := List.find?_range_eq_none.1 h (pos + u.length) hlt
  simp [hdrop] at hnot

omit [DecidableEq α] in
theorem replaceAt_append (u rest : List α) : replaceAt c (u ++ a :: b :: rest) u.length = u ++ c :: rest := by
  have hdrop : (u ++ a :: b :: rest).drop (u.length + 2) = rest := by
    rw [← List.drop_drop, List.drop_left]
    rfl
  rw [replaceAt, List.take_left, hdrop]

/-- A replacement makes the word one symbol shorter. -/
theorem length_replaceAt (h : find a b s pos = some i) : (replaceAt c s i).length + 1 = s.length := by
  obtain ⟨u, v, rest, rfl, -, rfl, -⟩ := find_eq_some h
  rw [← List.append_assoc, ← List.length_append, replaceAt_append]
  simp only [List.length_append, List.length_cons]
  omega

variable (a b c) in
/-- The loop, from a position on. -/
def replaceLoop (s : List α) (pos : Nat) : List α :=
  match _h : find a b s pos with
  | none => s
  | some i => replaceLoop (replaceAt c s i) i
termination_by s.length
decreasing_by
  have hlen := length_replaceAt (c := c) (by assumption)
  omega

/-! ## The unescaped word -/

theorem unescape_cons {x : α} {t : List α} (h : ¬ [a, b] <+: x :: t) :
    unescape a b c (x :: t) = x :: unescape a b c t ∧ pairs a b (x :: t) = pairs a b t := by
  cases t with
  | nil => exact ⟨rfl, rfl⟩
  | cons y rest =>
    have hxy : ¬ (x = a ∧ y = b) := by
      rintro ⟨rfl, rfl⟩
      exact h ⟨rest, rfl⟩
    rw [unescape, pairs, if_neg hxy, if_neg hxy]
    exact ⟨rfl, rfl⟩

/-- Up to the first pair nothing is replaced. -/
theorem unescape_append_pair {v rest : List α} (h : ∀ j < v.length, ¬ [a, b] <+: (v ++ a :: b :: rest).drop j) :
    unescape a b c (v ++ a :: b :: rest) = v ++ c :: unescape a b c rest ∧
      pairs a b (v ++ a :: b :: rest) = pairs a b rest + 1 := by
  induction v with
  | nil => simp [unescape, pairs]
  | cons x v ih =>
    have hhead : ¬ [a, b] <+: x :: (v ++ a :: b :: rest) := h 0 (by simp)
    have htail : ∀ j < v.length, ¬ [a, b] <+: (v ++ a :: b :: rest).drop j := by
      intro j hj
      exact h (j + 1) (by simpa using hj)
    obtain ⟨hu, hp⟩ := unescape_cons (c := c) hhead
    rw [List.cons_append, hu, hp, (ih htail).1, (ih htail).2]
    exact ⟨rfl, rfl⟩

/-- A word without the pair is left alone. -/
theorem unescape_of_not_infix (h : ¬ [a, b] <:+: s) : unescape a b c s = s ∧ pairs a b s = 0 := by
  induction s with
  | nil => exact ⟨rfl, rfl⟩
  | cons x t ih =>
    obtain ⟨hu, hp⟩ := unescape_cons (c := c) fun hpre => h hpre.isInfix
    obtain ⟨hut, hpt⟩ := ih fun hinf => h (hinf.trans (List.suffix_cons x t).isInfix)
    rw [hu, hp, hut, hpt]
    exact ⟨rfl, rfl⟩

/-- Each pair replaced makes the word one symbol shorter. -/
theorem length_unescape (s : List α) : (unescape a b c s).length + pairs a b s = s.length := by
  fun_induction pairs a b s with
  | case1 x y rest hxy ih =>
    rw [unescape, if_pos hxy, List.length_cons, List.length_cons, List.length_cons]
    omega
  | case2 x y rest hxy ih =>
    rw [unescape, if_neg hxy, List.length_cons, List.length_cons (a := x)]
    omega
  | case3 s hs =>
    rw [unescape]
    · rfl
    · exact hs

/-- The first symbol of an unescaped word is `c` or the first of the word. -/
theorem head_unescape {x : α} (h : (unescape a b c s).head? = some x) : x = c ∨ s.head? = some x := by
  unfold unescape at h
  split at h
  · split at h
    · cases h; exact .inl rfl
    · exact .inr h
  · exact .inr h

/-- **Unescaping leaves no pair.** -/
theorem not_infix_unescape (hca : c ≠ a) (hcb : c ≠ b) (s : List α) : ¬ [a, b] <:+: unescape a b c s := by
  fun_induction unescape a b c s with
  | case1 x y rest hxy ih =>
    intro h
    rcases List.infix_cons_iff.1 h with hpre | hinf
    · exact hca (List.cons_prefix_cons.1 hpre).1.symm
    · exact ih hinf
  | case2 x y rest hxy ih =>
    intro h
    rcases List.infix_cons_iff.1 h with hpre | hinf
    · obtain ⟨rfl, htail⟩ := List.cons_prefix_cons.1 hpre
      obtain ⟨t, ht⟩ := htail
      have hhead : (unescape a b c (y :: rest)).head? = some b := by rw [← ht]; rfl
      rcases head_unescape hhead with hb | hy
      · exact hcb hb.symm
      · cases hy; exact hxy ⟨rfl, rfl⟩
    · exact ih hinf
  | case3 s hs =>
    rintro ⟨u, v, rfl⟩
    cases u with
    | nil => exact hs a b v rfl
    | cons x u => cases u <;> exact hs _ _ _ rfl

/-! ## The loop unescapes -/

/-- **The loop halts** with the word unescaped from the position on, after a turn for each pair. -/
theorem halts_turn (hca : c ≠ a) (s : List α) (pos : Nat) :
    ∃ pos', Halts (turn a b c) (s, pos) (pairs a b (s.drop pos)) (s.take pos ++ unescape a b c (s.drop pos), pos') := by
  cases hf : find a b s pos with
  | none =>
    have hnone : turn a b c (s, pos) = none := by simp [turn, hf]
    obtain ⟨hu, hp⟩ := unescape_of_not_infix (c := c) (find_eq_none hf)
    rw [hu, hp, List.take_append_drop]
    exact ⟨pos, .done hnone⟩
  | some i =>
    have hturn : turn a b c (s, pos) = some (replaceAt c s i, i) := by simp [turn, hf]
    have hlen := length_replaceAt (c := c) hf
    obtain ⟨pos', hr⟩ := halts_turn hca (replaceAt c s i) i
    obtain ⟨u, v, rest, rfl, rfl, rfl, hfirst⟩ := find_eq_some hf
    -- the replacement starts no pair, so looking on from it is looking on behind it
    have hnew : replaceAt c (u ++ (v ++ a :: b :: rest)) (u.length + v.length) = (u ++ v) ++ c :: rest := by
      rw [← List.append_assoc, ← List.length_append, replaceAt_append]
    have hc : ¬ [a, b] <+: c :: rest := fun hpre => hca (List.cons_prefix_cons.1 hpre).1.symm
    obtain ⟨hu, hp⟩ := unescape_append_pair (c := c) hfirst
    obtain ⟨huc, hpc⟩ := unescape_cons (c := c) hc
    rw [hnew] at hturn hr
    rw [← List.length_append] at hturn hr
    rw [List.drop_left, List.take_left, huc, hpc] at hr
    rw [List.drop_left, List.take_left, hu, hp, ← List.append_assoc u v (c :: unescape a b c rest)]
    exact ⟨pos', .next hturn hr⟩
termination_by s.length

/-- The recursive program ends where the turns do. -/
theorem replaceLoop_of_halts {state state' : List α × Nat} {n : Nat} (h : Halts (turn a b c) state n state') :
    replaceLoop a b c state.1 state.2 = state'.1 := by
  induction h with
  | done hnone =>
    have hf := Option.map_eq_none_iff.1 hnone
    rw [replaceLoop]
    split
    · rfl
    · next heq => rw [hf] at heq; cases heq
  | next hturn _ ih =>
    obtain ⟨i, hf, rfl⟩ := Option.map_eq_some_iff.1 hturn
    rw [replaceLoop]
    split
    · next heq => rw [hf] at heq; cases heq
    · next heq => rw [hf] at heq; cases heq; exact ih

theorem replaceLoop_eq (hca : c ≠ a) (s : List α) : replaceLoop a b c s 0 = unescape a b c s := by
  obtain ⟨pos', h⟩ := halts_turn hca (b := b) s 0
  exact replaceLoop_of_halts h

/-! ## Round trip -/

theorem escape_cons (x : α) (t : List α) :
    escape a b c (x :: t) = if x = c then a :: b :: escape a b c t else x :: escape a b c t := by
  unfold escape
  rw [List.flatMap_cons]
  split <;> rfl

/-- **Unescaping undoes escaping** on the words without the pair. -/
theorem unescape_escape (hab : a ≠ b) (h : ¬ [a, b] <:+: s) : unescape a b c (escape a b c s) = s := by
  induction s with
  | nil => rfl
  | cons x t ih =>
    have ht := ih fun hinf => h (hinf.trans (List.suffix_cons x t).isInfix)
    rw [escape_cons]
    split
    · next hx => rw [unescape, if_pos ⟨rfl, rfl⟩, ht, hx]
    · -- the escaped tail begins with the symbol after `x`, or with `a` where that is `c`
      have hpre : ¬ [a, b] <+: x :: escape a b c t := by
        intro hpre
        obtain ⟨rfl, htail⟩ := List.cons_prefix_cons.1 hpre
        cases t with
        | nil => exact absurd htail (by simp [escape])
        | cons y t =>
          rw [escape_cons] at htail
          split at htail
          · exact hab (List.cons_prefix_cons.1 htail).1.symm
          · have hy := (List.cons_prefix_cons.1 htail).1
            subst hy
            exact h ⟨[], t, rfl⟩
      rw [(unescape_cons hpre).1, ht]

end Escape
