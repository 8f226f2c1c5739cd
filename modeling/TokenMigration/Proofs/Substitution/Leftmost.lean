import Mathlib.Algebra.Ring.Int.Defs
import TokenMigration.Proofs.Substitution.Pass

namespace TokenMigration.Substitution

variable {α : Type}

-- The pieces of a text around occurrences of a token. Each occurrence is the first one that begins
-- at the end of the one before or later, and the last piece holds none.
inductive Leftmost (token : List α) : List α → List (List α) → Prop
  | last {text : List α} : ¬ token <:+: text → Leftmost token text [text]
  | next {before rest : List α} {pieces : List (List α)} :
      (∀ i < before.length, ¬ token <+: (before ++ (token ++ rest)).drop i) →
      Leftmost token rest pieces → Leftmost token (before ++ (token ++ rest)) (before :: pieces)

-- What one pair makes of a text, and how often it has put its new token there.
inductive Pass : List α × List α → List α → List α → Nat → Prop
  | between {p : List α × List α} {text : List α} {pieces : List (List α)} {n : Nat} :
      p.1 ≠ [] → Leftmost p.1 text pieces → pieces.length = n + 1 →
      Pass p text (p.2.intercalate pieces) n
  | everywhere {new text : List α} :
      Pass ([], new) text ((text.flatMap fun c => new ++ [c]) ++ new) (text.length + 1)

-- The passes of the pairs in their order, each over the text that the one before has left.
inductive Passes : List (List α × List α) → List α → List α → List Nat → Prop
  | nil {text : List α} : Passes [] text text []
  | cons {p : List α × List α} {pairs : List (List α × List α)} {text next last : List α} {n : Nat}
      {counts : List Nat} :
      Pass p text next n → Passes pairs next last counts → Passes (p :: pairs) text last (n :: counts)

namespace Leftmost

variable {token text : List α} {pieces : List (List α)}

theorem ne_nil (h : Leftmost token text pieces) : pieces ≠ [] := by
  cases h <;> simp

theorem intercalate (h : Leftmost token text pieces) : token.intercalate pieces = text := by
  induction h with
  | last _ => simp
  | @next before rest pieces _ hrest ih =>
    rw [List.intercalate_cons_of_ne_nil hrest.ne_nil, ih, List.append_assoc]

-- The pieces stay as they are when an element is put in front with which no occurrence begins.
theorem cons {c : α} (hp : ¬ token <+: c :: text) (h : Leftmost token text pieces) :
    Leftmost token (c :: text) (pieces.modifyHead (c :: ·)) := by
  cases h with
  | last hn =>
    rw [List.modifyHead_cons]
    exact .last fun hi => (List.infix_cons_iff.mp hi).elim hp hn
  | @next before rest pieces hfirst hrest =>
    rw [List.modifyHead_cons, ← List.cons_append]
    refine .next (fun i hi => ?_) hrest
    cases i with
    | zero => exact hp
    | succ i => exact hfirst i (by simpa using hi)

-- Of two first occurrences neither begins before the other.
private theorem length_before_le {before other rest rest' : List α}
    (he : before ++ (token ++ rest) = other ++ (token ++ rest'))
    (hfirst : ∀ i < before.length, ¬ token <+: (before ++ (token ++ rest)).drop i) :
    before.length ≤ other.length := by
  by_contra hlt
  refine hfirst other.length (by omega) ?_
  rw [he, List.drop_left]
  exact List.prefix_append _ _

theorem unique {others : List (List α)} (h : Leftmost token text pieces)
    (h' : Leftmost token text others) : pieces = others := by
  induction h generalizing others with
  | last hn =>
    cases h' with
    | last _ => rfl
    | next _ _ => exact absurd (List.infix_append' _ _ _) hn
  | @next before rest pieces hfirst hrest ih =>
    generalize he : before ++ (token ++ rest) = whole at h'
    cases h' with
    | last hn => exact absurd (he ▸ List.infix_append' _ _ _) hn
    | @next other rest' others hfirst' hrest' =>
      have hlength : before.length = other.length :=
        Nat.le_antisymm (length_before_le he hfirst) (length_before_le he.symm hfirst')
      obtain ⟨rfl, htail⟩ := List.append_inj he hlength
      obtain rfl := List.append_cancel_left htail
      rw [ih hrest']

end Leftmost

variable [BEq α] [LawfulBEq α]

theorem leftmost_cut {token : List α} (ht : token ≠ []) (text : List α) :
    Leftmost token text (cut token text) := by
  induction text using pass_induction ht with
  | nil =>
    rw [cut_nil token ht]
    exact .last (by simpa using ht)
  | found rest ih =>
    rw [cut_found token rest ht]
    exact @Leftmost.next _ token [] rest _ (by simp) ih
  | other c rest hp ih =>
    rw [cut_other hp]
    exact ih.cons hp

-- A pass is what is computed for it, and nothing else is one.
theorem pass_iff {p : List α × List α} {text next : List α} {n : Nat} :
    Pass p text next n ↔ next = replaceAll p.1 p.2 text ∧ n = occurrences p.1 text := by
  constructor
  · rintro (⟨ht, hpieces, hn⟩ | _)
    · obtain rfl := hpieces.unique (leftmost_cut ht text)
      rw [length_cut, Nat.add_right_cancel_iff] at hn
      exact ⟨rfl, hn.symm⟩
    · exact ⟨(replaceAll_empty_token _ _).symm, (occurrences_empty_token _).symm⟩
  · rintro ⟨rfl, rfl⟩
    obtain ⟨old, new⟩ := p
    by_cases ht : old = []
    · subst ht
      rw [replaceAll_empty_token, occurrences_empty_token]
      exact .everywhere
    · exact .between ht (leftmost_cut ht text) (length_cut old text)

theorem Pass.eq_of_none {p : List α × List α} {text next : List α} (h : Pass p text next 0) :
    next = text := by
  obtain ⟨rfl, hn⟩ := pass_iff.mp h
  exact replaceAll_of_absent _ ((occurrences_eq_zero_iff _ _).mp hn.symm)

theorem exists_passes (pairs : List (List α × List α)) (text : List α) :
    ∃ counts, Passes pairs text (replaceInOrder pairs text).1 counts ∧
      (replaceInOrder pairs text).2 = counts.sum := by
  induction pairs generalizing text with
  | nil => exact ⟨[], .nil, rfl⟩
  | cons p pairs ih =>
    obtain ⟨counts, hrun, hsum⟩ := ih (replaceAll p.1 p.2 text)
    rw [replaceInOrder_cons p.1 p.2, hsum]
    exact ⟨occurrences p.1 text :: counts, .cons (pass_iff.mpr ⟨rfl, rfl⟩) hrun, rfl⟩

namespace Passes

variable {pairs : List (List α × List α)} {text last : List α} {counts : List Nat}

theorem unique {last' : List α} {counts' : List Nat} (h : Passes pairs text last counts)
    (h' : Passes pairs text last' counts') : last' = last ∧ counts' = counts := by
  induction h generalizing last' counts' with
  | nil =>
    cases h'
    exact ⟨rfl, rfl⟩
  | cons hpass _ ih =>
    obtain ⟨rfl, rfl⟩ := pass_iff.mp hpass
    cases h' with
    | cons hpass' hrun' =>
      obtain ⟨rfl, rfl⟩ := pass_iff.mp hpass'
      obtain ⟨rfl, rfl⟩ := ih hrun'
      exact ⟨rfl, rfl⟩

-- A measure that adds up when texts are joined changes by what the pairs exchange.
theorem measure (μ : List α → Nat) (hadd : ∀ u v, μ (u ++ v) = μ u + μ v)
    (h : Passes pairs text last counts) :
    (μ last : Int) = μ text +
      (List.zipWith (fun p (n : Nat) => n * ((μ p.2 : Int) - μ p.1)) pairs counts).sum := by
  induction h with
  | nil => simp
  | @cons p pairs text next last n counts hpass _ ih =>
    obtain ⟨rfl, rfl⟩ := pass_iff.mp hpass
    have hone := congrArg (Nat.cast : Nat → Int) (measure_replaceAll μ hadd p.1 p.2 text)
    push_cast at hone
    rw [List.zipWith_cons_cons, List.sum_cons, ih, Int.mul_sub]
    omega

end Passes

end TokenMigration.Substitution
