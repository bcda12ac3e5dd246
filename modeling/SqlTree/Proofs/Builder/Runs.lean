/-!
# Runs of calls

A builder changes call by call, and each call says something about one clause. What a run of calls
leaves of a clause follows from what one call does to it: nothing is said of it (`kept_foldl`), what
is said adds up (`appended_foldl`), or the last word counts (`last_foldl`). What is said of a clause
is found among the calls about it (`filterMap_filter_clause`), so the calls about other clauses may
stand anywhere between them.
-/

namespace SqlTree.Calls

variable {σ κ α : Type} {step : σ → κ → σ}

theorem kept_foldl (held : σ → α) (hstep : ∀ s c, held (step s c) = held s) (s : σ)
    (calls : List κ) : held (calls.foldl step s) = held s := by
  induction calls generalizing s with
  | nil => rfl
  | cons c rest ih => rw [List.foldl_cons, ih, hstep]

theorem appended_foldl (held : σ → List α) {said : κ → List α}
    (hstep : ∀ s c, held (step s c) = held s ++ said c) (s : σ) (calls : List κ) :
    held (calls.foldl step s) = held s ++ calls.flatMap said := by
  induction calls generalizing s with
  | nil => simp
  | cons c rest ih => rw [List.foldl_cons, ih, hstep, List.flatMap_cons, List.append_assoc]

theorem last_foldl (held : σ → Option α) {said : κ → Option α}
    (hstep : ∀ s c, held (step s c) = (said c).or (held s)) (s : σ) (calls : List κ) :
    held (calls.foldl step s) = (calls.filterMap said).getLast?.or (held s) := by
  induction calls generalizing s with
  | nil => simp
  | cons c rest ih =>
    rw [List.foldl_cons, ih, hstep, List.filterMap_cons]
    cases said c with
    | none => simp
    | some a => cases hrest : (rest.filterMap said).getLast? <;> simp [List.getLast?_cons, hrest]

variable {γ : Type} [DecidableEq γ] {clause : κ → γ}

theorem filterMap_filter_clause {said : κ → Option α} {k : γ}
    (hsaid : ∀ c, clause c ≠ k → said c = none) (calls : List κ) :
    (calls.filter (clause · == k)).filterMap said = calls.filterMap said := by
  rw [List.filterMap_filter]
  congr 1
  funext c
  by_cases hc : clause c = k
  · simp [hc]
  · simp [hc, hsaid c hc]

/-- Two neighbours that are about different clauses may change places. -/
theorem filter_clause_swap {c d : κ} (h : clause c ≠ clause d) (before after : List κ) (k : γ) :
    (before ++ c :: d :: after).filter (clause · == k)
      = (before ++ d :: c :: after).filter (clause · == k) := by
  rw [List.filter_append, List.filter_append]
  by_cases hc : clause c = k
  · have hd : clause d ≠ k := fun hd => h (hc.trans hd.symm)
    simp [hc, hd]
  · simp [List.filter_cons, hc]

end SqlTree.Calls
