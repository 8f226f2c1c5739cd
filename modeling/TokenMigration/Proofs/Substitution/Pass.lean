import Mathlib.Algebra.GroupWithZero.Nat
import Mathlib.Data.List.Infix
import TokenMigration.Text.Substitution

namespace TokenMigration.Substitution

variable {α : Type}

-- A text is read from left to right. At each place either one of the tokens is found and skipped,
-- or reading goes on by one element.
theorem scan_induction {pairs : List (List α × List α)} {motive : List α → Prop}
    (hne : ∀ p ∈ pairs, p.1 ≠ []) (nil : motive [])
    (found : ∀ p ∈ pairs, ∀ rest, motive rest → motive (p.1 ++ rest))
    (other : ∀ c rest, (∀ p ∈ pairs, ¬ p.1 <+: c :: rest) → motive rest → motive (c :: rest))
    (text : List α) : motive text := by
  induction hn : text.length using Nat.strong_induction_on generalizing text with
  | h n ih =>
    subst hn
    cases text with
    | nil => exact nil
    | cons c rest =>
      by_cases hp : ∃ p ∈ pairs, p.1 <+: c :: rest
      · obtain ⟨p, hp, after, ha⟩ := hp
        have hpos := List.length_pos_iff.mpr (hne p hp)
        rw [← ha]
        refine found p hp after (ih after.length ?_ after rfl)
        rw [← ha, List.length_append]
        omega
      · exact other c rest (fun p hm hq => hp ⟨p, hm, hq⟩) (ih rest.length (by simp) rest rfl)

theorem pass_induction {token : List α} {motive : List α → Prop} (ht : token ≠ [])
    (nil : motive [])
    (found : ∀ rest, motive rest → motive (token ++ rest))
    (other : ∀ c rest, ¬ token <+: c :: rest → motive rest → motive (c :: rest))
    (text : List α) : motive text := by
  have hne : ∀ p ∈ [(token, ([] : List α))], p.1 ≠ [] := by simpa using ht
  induction text using scan_induction hne with
  | nil => exact nil
  | found p hp rest ih =>
    obtain rfl := List.mem_singleton.mp hp
    exact found rest ih
  | other c rest hn ih => exact other c rest (hn (token, []) (by simp)) ih

private theorem intercalate_cons_cons (sep piece : List α) (c : α) (pieces : List (List α)) :
    sep.intercalate ((c :: piece) :: pieces) = c :: sep.intercalate (piece :: pieces) := by
  cases pieces <;> simp [List.intercalate]

section Steps

variable [BEq α] {token : List α} (replacement : List α)

theorem replaceAll_nil (ht : token ≠ []) : replaceAll token replacement [] = [] := by
  simp [replaceAll, cut_nil token ht, List.intercalate]

theorem occurrences_nil (ht : token ≠ []) : occurrences token [] = 0 := by
  simp [occurrences, cut_nil token ht]

variable [LawfulBEq α]

theorem cut_other {c : α} {rest : List α} (hp : ¬ token <+: c :: rest) :
    cut token (c :: rest) = (cut token rest).modifyHead (c :: ·) := by
  apply cut_cons
  rwa [Bool.eq_false_iff, ne_eq, List.isPrefixOf_iff_prefix]

theorem cut_ne_nil (ht : token ≠ []) (text : List α) : cut token text ≠ [] := by
  induction text using pass_induction ht with
  | nil => simp [cut_nil token ht]
  | found rest ih => simp [cut_found token rest ht]
  | other c rest hp ih =>
    rw [cut_other hp]
    cases hc : cut token rest with
    | nil => exact absurd hc ih
    | cons piece pieces => simp

theorem replaceAll_found (ht : token ≠ []) (rest : List α) :
    replaceAll token replacement (token ++ rest) =
      replacement ++ replaceAll token replacement rest := by
  simp only [replaceAll, cut_found token rest ht]
  cases hc : cut token rest with
  | nil => exact absurd hc (cut_ne_nil ht rest)
  | cons piece pieces => simp [List.intercalate]

theorem replaceAll_other {c : α} {rest : List α} (hp : ¬ token <+: c :: rest) :
    replaceAll token replacement (c :: rest) = c :: replaceAll token replacement rest := by
  have ht : token ≠ [] := by rintro rfl; simp at hp
  simp only [replaceAll, cut_other hp]
  cases hc : cut token rest with
  | nil => exact absurd hc (cut_ne_nil ht rest)
  | cons piece pieces => exact intercalate_cons_cons replacement piece c pieces

theorem occurrences_found (ht : token ≠ []) (rest : List α) :
    occurrences token (token ++ rest) = occurrences token rest + 1 := by
  have hpos := List.length_pos_iff.mpr (cut_ne_nil ht rest)
  simp only [occurrences, cut_found token rest ht, List.length_cons]
  omega

theorem occurrences_other {c : α} {rest : List α} (hp : ¬ token <+: c :: rest) :
    occurrences token (c :: rest) = occurrences token rest := by
  simp [occurrences, cut_other hp]

end Steps

section EmptyToken

variable [BEq α]

-- The empty token occurs before every element and at the end.
theorem replaceAll_empty_token (replacement text : List α) :
    replaceAll [] replacement text = (text.flatMap fun c => replacement ++ [c]) ++ replacement := by
  rw [replaceAll, cut_empty_token]
  induction text with
  | nil => simp [List.intercalate]
  | cons c rest ih =>
    simp only [List.map_cons, List.cons_append, List.intercalate_cons_cons, List.nil_append] at ih ⊢
    rw [intercalate_cons_cons, ih]
    simp

theorem occurrences_empty_token (text : List α) : occurrences [] text = text.length + 1 := by
  simp [occurrences, cut_empty_token]

end EmptyToken

variable [BEq α] [LawfulBEq α]

theorem length_cut (token text : List α) :
    (cut token text).length = occurrences token text + 1 := by
  have hne : cut token text ≠ [] := by
    by_cases ht : token = []
    · simp [ht, cut_empty_token]
    · exact cut_ne_nil ht text
  have hpos := List.length_pos_iff.mpr hne
  rw [occurrences]
  omega

theorem occurrences_eq_zero_iff (token text : List α) :
    occurrences token text = 0 ↔ ¬ token <:+: text := by
  by_cases ht : token = []
  · subst ht
    simp [occurrences_empty_token]
  · induction text using pass_induction ht with
    | nil => simp [occurrences_nil ht, ht]
    | found rest ih =>
      rw [occurrences_found ht]
      simp [List.infix_append_left]
    | other c rest hp ih =>
      rw [occurrences_other hp, ih, List.infix_cons_iff, not_or, and_iff_right hp]

theorem replaceAll_of_absent {token : List α} (replacement : List α) {text : List α}
    (h : ¬ token <:+: text) : replaceAll token replacement text = text := by
  have ht : token ≠ [] := by rintro rfl; simp at h
  induction text with
  | nil => exact replaceAll_nil replacement ht
  | cons c rest ih =>
    rw [List.infix_cons_iff, not_or] at h
    rw [replaceAll_other replacement h.1, ih h.2]

theorem replaceInOrder_cons (token replacement : List α) (pairs : List (List α × List α))
    (text : List α) :
    replaceInOrder ((token, replacement) :: pairs) text =
      ((replaceInOrder pairs (replaceAll token replacement text)).1,
        occurrences token text + (replaceInOrder pairs (replaceAll token replacement text)).2) := by
  simp only [replaceInOrder]
  by_cases hz : occurrences token text = 0
  · rw [if_pos hz, replaceAll_of_absent replacement ((occurrences_eq_zero_iff token text).mp hz)]
  · rw [if_neg hz]

theorem replaceInOrder_append (earlier later : List (List α × List α)) (text : List α) :
    replaceInOrder (earlier ++ later) text =
      ((replaceInOrder later (replaceInOrder earlier text).1).1,
        (replaceInOrder earlier text).2 +
          (replaceInOrder later (replaceInOrder earlier text).1).2) := by
  induction earlier generalizing text with
  | nil => simp [replaceInOrder]
  | cons p earlier ih =>
    rw [List.cons_append, replaceInOrder_cons p.1 p.2, replaceInOrder_cons p.1 p.2, ih]
    simp only [Nat.add_assoc]

-- The number of replacements is zero exactly for a text without old tokens, and such a text stays.
theorem replaceInOrder_eq_self (pairs : List (List α × List α)) (text : List α)
    (h : ∀ pair ∈ pairs, ¬ pair.1 <:+: text) : replaceInOrder pairs text = (text, 0) := by
  induction pairs with
  | nil => rfl
  | cons pair pairs ih =>
    have hp := h pair (by simp)
    rw [replaceInOrder_cons, replaceAll_of_absent _ hp, (occurrences_eq_zero_iff _ _).mpr hp,
      ih (fun other ho => h other (by simp [ho])), Nat.zero_add]

theorem replaceInOrder_count_eq_zero_iff (pairs : List (List α × List α)) (text : List α) :
    (replaceInOrder pairs text).2 = 0 ↔ ∀ pair ∈ pairs, ¬ pair.1 <:+: text := by
  constructor
  · induction pairs with
    | nil => simp
    | cons pair pairs ih =>
      intro hz
      rw [replaceInOrder_cons, Nat.add_eq_zero_iff] at hz
      have hp := (occurrences_eq_zero_iff _ _).mp hz.1
      rw [replaceAll_of_absent _ hp] at hz
      exact List.forall_mem_cons.mpr ⟨hp, ih hz.2⟩
  · intro h
    rw [replaceInOrder_eq_self pairs text h]

-- The pieces around the occurrences, put together again with the token itself.
theorem replaceAll_self (token text : List α) : replaceAll token token text = text := by
  by_cases ht : token = []
  · subst ht
    rw [replaceAll_empty_token]
    simp
  · induction text using pass_induction ht with
    | nil => exact replaceAll_nil token ht
    | found rest ih => rw [replaceAll_found token ht, ih]
    | other c rest hp ih => rw [replaceAll_other token hp, ih]

section Measures

-- A measure of texts that adds up when texts are joined.
variable (measure : List α → Nat) (hadd : ∀ u v, measure (u ++ v) = measure u + measure v)

include hadd

omit [BEq α] [LawfulBEq α] in
private theorem measure_intercalate (sep : List α) {pieces : List (List α)} {n : Nat}
    (hn : pieces.length = n + 1) :
    measure (sep.intercalate pieces) = (pieces.map measure).sum + n * measure sep := by
  induction pieces generalizing n with
  | nil => cases hn
  | cons piece pieces ih =>
    cases pieces with
    | nil =>
      obtain rfl : n = 0 := by simpa using hn.symm
      simp
    | cons next pieces =>
      obtain ⟨m, rfl⟩ : ∃ m, n = m + 1 := ⟨pieces.length, by simpa using hn.symm⟩
      rw [List.intercalate_cons_cons, hadd, hadd, ih (by simpa using hn), Nat.add_mul, Nat.one_mul]
      simp only [List.map_cons, List.sum_cons]
      omega

-- Each occurrence takes the measure of the token away and brings in that of the replacement.
theorem measure_replaceAll (token replacement text : List α) :
    measure (replaceAll token replacement text) + occurrences token text * measure token =
      measure text + occurrences token text * measure replacement := by
  have hn : (cut token text).length = occurrences token text + 1 := length_cut token text
  have hself := congrArg measure (replaceAll_self token text)
  rw [replaceAll, measure_intercalate measure hadd token hn] at hself
  rw [replaceAll, measure_intercalate measure hadd replacement hn]
  omega

-- If every new token measures `k` more than its old one, each replacement adds `k` to the measure.
theorem measure_replaceInOrder {k : Nat} (pairs : List (List α × List α))
    (h : ∀ p ∈ pairs, measure p.2 = measure p.1 + k) (text : List α) :
    measure (replaceInOrder pairs text).1 = measure text + (replaceInOrder pairs text).2 * k := by
  induction pairs generalizing text with
  | nil => simp [replaceInOrder]
  | cons p pairs ih =>
    have hpass := measure_replaceAll measure hadd p.1 p.2 text
    rw [h p List.mem_cons_self, Nat.mul_add] at hpass
    rw [replaceInOrder_cons p.1 p.2]
    simp only
    rw [ih (fun q hq => h q (List.mem_cons_of_mem _ hq)), Nat.add_mul]
    omega

end Measures

end TokenMigration.Substitution
