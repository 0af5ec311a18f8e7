/-!
# Lists with one entry less

Association lists lose entries by key, queues lose one entry at a time.  What
is left of the rest of the list is said here once, for every kind of entry.
-/

namespace HeadUnitLink

variable {α β : Type} [DecidableEq α]

/-! ## Association lists -/

/-- Entries that are kept by their key are found as before, and no others. -/
theorem lookup_filter (keep : α → Bool) (key : α) (entries : List (α × β)) :
    (entries.filter fun entry => keep entry.1).lookup key =
      if keep key then entries.lookup key else none := by
  induction entries with
  | nil => exact (ite_self _).symm
  | cons entry rest ih =>
    obtain ⟨found, value⟩ := entry
    rw [List.filter_cons]
    by_cases hfound : key = found
    · subst hfound
      cases hkeep : keep key with
      | false =>
        rw [if_neg (by simp), ih, hkeep]
        rfl
      | true => rw [if_pos rfl, List.lookup_cons_self, if_pos rfl, List.lookup_cons_self]
    · have hne : (key == found) = false := beq_false_of_ne hfound
      rw [List.lookup_cons, hne]
      split
      · rw [List.lookup_cons, hne]
        exact ih
      · exact ih

theorem lookup_filter_of_ne {key other : α} (h : other ≠ key) (entries : List (α × β)) :
    (entries.filter fun entry => entry.1 ≠ key).lookup other = entries.lookup other := by
  rw [lookup_filter (fun found => found ≠ key), if_pos (decide_eq_true h)]

theorem lookup_filter_self (key : α) (entries : List (α × β)) :
    (entries.filter fun entry => entry.1 ≠ key).lookup key = none := by
  rw [lookup_filter (fun found => found ≠ key), if_neg (by simp)]

theorem lookup_cons_of_ne {key other : α} (h : other ≠ key) (value : β) (entries : List (α × β)) :
    ((key, value) :: entries).lookup other = entries.lookup other := by
  rw [List.lookup_cons, beq_false_of_ne h]

/-- A list of entries without a key is empty. -/
theorem eq_nil_of_lookup_eq_none {entries : List (α × β)}
    (h : ∀ key, entries.lookup key = none) : entries = [] := by
  cases entries with
  | nil => rfl
  | cons entry rest =>
    have hfound : (entry :: rest).lookup entry.1 = some entry.2 := List.lookup_cons_self
    exact absurd ((h entry.1).symm.trans hfound) (by simp)

/-! ## Parts of a list -/

/-- The first of a list that passes a test is the first of any part of the list
that keeps it. -/
theorem find?_filter_of_find? {entries : List β} {test keep : β → Bool} {entry : β}
    (hfind : entries.find? test = some entry) (hkeep : keep entry = true) :
    (entries.filter keep).find? test = some entry := by
  induction entries with
  | nil => exact absurd hfind (by simp)
  | cons first rest ih =>
    by_cases htest : test first
    · rw [List.find?_cons_of_pos htest] at hfind
      obtain rfl := Option.some.inj hfind
      rw [List.filter_cons_of_pos hkeep, List.find?_cons_of_pos htest]
    · rw [List.find?_cons_of_neg htest] at hfind
      rw [List.filter_cons]
      split
      · rw [List.find?_cons_of_neg htest]
        exact ih hfind
      · exact ih hfind

theorem filter_erase_of_not {entries : List α} {keep : α → Bool} {entry : α}
    (h : keep entry = false) : (entries.erase entry).filter keep = entries.filter keep := by
  rw [← List.erase_filter]
  refine List.erase_of_not_mem fun hmem => ?_
  rw [(List.mem_filter.1 hmem).2] at h
  exact Bool.noConfusion h

theorem filter_erase_of_head {entries rest : List α} {keep : α → Bool} {entry : α}
    (h : entries.filter keep = entry :: rest) : (entries.erase entry).filter keep = rest := by
  rw [← List.erase_filter, h, List.erase_cons_head]

theorem filter_filter_of_imp {test keep : β → Bool}
    (h : ∀ entry, keep entry = true → test entry = true) (entries : List β) :
    (entries.filter test).filter keep = entries.filter keep := by
  rw [List.filter_filter]
  refine List.filter_congr fun entry _ => ?_
  cases hkeep : keep entry with
  | false => rfl
  | true => rw [h entry hkeep, Bool.and_self]

theorem filter_filter_of_not {test keep : β → Bool}
    (h : ∀ entry, keep entry = true → test entry = false) (entries : List β) :
    (entries.filter test).filter keep = [] := by
  refine List.filter_eq_nil_iff.2 fun entry hentry hkeep => ?_
  have htest := (List.mem_filter.1 hentry).2
  rw [h entry hkeep] at htest
  cases htest

/-- A part of the values of a partial function, when it can be told from the
entries. -/
theorem filter_filterMap_of {γ : Type} {entries : List β} {value : β → Option γ}
    {keep : γ → Bool} {keepEntry : β → Bool}
    (h : ∀ entry ∈ entries, ∀ v, value entry = some v → keep v = keepEntry entry) :
    (entries.filterMap value).filter keep = (entries.filter keepEntry).filterMap value := by
  induction entries with
  | nil => rfl
  | cons entry rest ih =>
    have hrest := ih fun other hother => h other (List.mem_cons_of_mem _ hother)
    rw [List.filterMap_cons, List.filter_cons]
    cases hvalue : value entry with
    | none =>
      simp only
      rw [hrest]
      split
      · rw [List.filterMap_cons, hvalue]
      · rfl
    | some v =>
      simp only
      rw [List.filter_cons, h entry List.mem_cons_self v hvalue, hrest]
      split
      · rw [List.filterMap_cons, hvalue]
      · rfl

/-- Lists that agree on every key have the same entries. -/
theorem perm_of_filter_eq [DecidableEq β] (key : β → α) {entries others : List β}
    (h : ∀ k, entries.filter (fun entry => key entry = k) =
      others.filter fun entry => key entry = k) : entries.Perm others := by
  refine List.perm_iff_count.2 fun entry => ?_
  have hcount := congrArg (List.count entry) (h (key entry))
  rw [List.count_filter (by simp), List.count_filter (by simp)] at hcount
  exact hcount

end HeadUnitLink
