import SqlTree.Proofs.Json.Holes

/-!
# Text behind a document

Blanks behind a document leave no trace in its outline (`Outline.ofText_blanks`). Anything else
behind an object is another part (`Outline.exists_ofText_trailing`), even if it is no token: a
closing bracket there closes nothing, and an opening one is closed by the end of the text.

The second needs an object. What stands behind `12` may be another digit.
-/

namespace SqlTree.Json

/-! ## No token is lost -/

namespace Token

/-- What is pending becomes a token. -/
theorem scan_ne_nil_of_pending {pending : Pending} (hnothing : pending ≠ .nothing)
    (hstopped : pending ≠ .stopped) (t : List Char) : scan pending t ≠ [] := by
  induction t generalizing pending with
  | nil =>
    cases pending with
    | nothing => exact absurd rfl hnothing
    | stopped => exact absurd rfl hstopped
    | word w missing => cases missing <;> simp [scan, Pending.finish]
    | number before place =>
      rw [scan, Pending.finish]
      split <;> simp
    | quoted before place => simp [scan, Pending.finish]
  | cons c rest ih =>
    rw [scan_cons]
    cases pending with
    | nothing => exact absurd rfl hnothing
    | stopped => exact absurd rfl hstopped
    | word w missing =>
      cases missing with
      | nil => simp [Pending.step, endedBy]
      | cons m missing =>
        rw [Pending.step]
        split
        · simp
        split
        · simp
        · exact ih (by simp) (by simp)
    | number before place =>
      rw [Pending.step]
      split
      · exact ih (by simp) (by simp)
      · simp [endedBy]
      · simp
    | quoted before place =>
      rw [Pending.step]
      split
      · exact ih (by simp) (by simp)
      · exact ih (by simp) (by simp)
      · simp
      · simp

/-- A character that is no blank begins a token. -/
theorem start_cases {c : Char} (hc : isBlank c = false) :
    (start c).1 ≠ [] ∨ (start c).2 ≠ .nothing ∧ (start c).2 ≠ .stopped := by
  unfold start
  rw [if_neg (Bool.eq_false_iff.1 hc)]
  repeat' split
  all_goals simp

/-- A text that is not blank has a token. -/
theorem scan_ne_nil {t : List Char} (h : ∃ c ∈ t, isBlank c = false) : scan .nothing t ≠ [] := by
  induction t with
  | nil =>
    obtain ⟨c, hc, -⟩ := h
    cases hc
  | cons c rest ih =>
    rw [scan_cons]
    by_cases hc : isBlank c = true
    · have hstart : Pending.step .nothing c = ([], .nothing) := by
        rw [Pending.step, start, if_pos hc]
      rw [hstart]
      obtain ⟨c', hmem, hc'⟩ := h
      rcases List.mem_cons.1 hmem with rfl | hmem
      · rw [hc] at hc'
        cases hc'
      · exact ih ⟨c', hmem, hc'⟩
    · rcases start_cases (Bool.eq_false_iff.2 hc) with hcomplete | ⟨hnothing, hstopped⟩
      · exact List.append_ne_nil_of_left_ne_nil hcomplete _
      · exact List.append_ne_nil_of_right_ne_nil _ (scan_ne_nil_of_pending hnothing hstopped rest)

end Token

/-! ## No part is lost -/

namespace Outline

open Document

/-- Does a part stand first at the outermost level, with something behind it? The parts are kept
latest first. -/
inductive Levels.Behind (p : Part) : Levels → Prop where
  | outermost {later : List Part} (h : later ≠ []) : Behind p ⟨later ++ [p], []⟩
  | inner (parts : List Part) (enclosing : List (Bracket × List Part)) (b : Bracket)
    (later : List Part) : Behind p ⟨parts, enclosing ++ [(b, later ++ [p])]⟩

namespace Levels.Behind

variable {p : Part} {l : Levels}

theorem add (h : l.Behind p) (q : Part) : (l.add q).Behind p := by
  cases h with
  | @outermost later h => exact .outermost (List.cons_ne_nil q later)
  | inner parts enclosing b later => exact .inner (q :: parts) enclosing b later

/-- One token behind a part is behind it, and leaves what is behind it there. -/
theorem step (h : l.Behind p) (t : Token) : (l.step t).Behind p := by
  cases t with
  | opening b =>
    cases h with
    | @outermost later h => exact .inner [] [] b later
    | inner parts enclosing b' later => exact .inner [] ((b, parts) :: enclosing) b' later
  | closing b =>
    cases h with
    | @outermost later h => exact (Behind.outermost h).add _
    | inner parts enclosing b' later =>
      cases enclosing with
      | nil =>
        show Levels.Behind p (if b' = b then _ else _)
        split
        · exact .outermost (List.cons_ne_nil (Part.ofBracket b false parts.reverse) later)
        · exact (Behind.inner parts [] b' later).add _
      | cons level enclosing =>
        show Levels.Behind p (if level.1 = b then _ else _)
        split
        · exact .inner (Part.ofBracket b false parts.reverse :: level.2) enclosing b' later
        · exact (Behind.inner parts (level :: enclosing) b' later).add _
  | _ => exact h.add _

/-- So do any tokens. -/
theorem foldl (ts : List Token) (h : l.Behind p) : (ts.foldl Levels.step l).Behind p := by
  induction ts generalizing l with
  | nil => exact h
  | cons t ts ih => exact ih (h.step t)

/-- A token behind the first part. -/
theorem of_token (p : Part) (t : Token) : ((⟨[p], []⟩ : Levels).step t).Behind p := by
  have hadd (q : Part) : ((⟨[p], []⟩ : Levels).add q).Behind p :=
    .outermost (List.cons_ne_nil q [])
  cases t with
  | opening b => exact .inner [] [] b []
  | _ => exact hadd _

theorem exists_finish (h : l.Behind p) : ∃ q rest, l.finish = p :: q :: rest := by
  have hreverse {later : List Part} (h : later ≠ []) :
      ∃ q rest, (later ++ [p]).reverse = p :: q :: rest := by
    obtain ⟨q, rest, hlater⟩ := List.exists_cons_of_ne_nil (List.reverse_ne_nil_iff.2 h)
    exact ⟨q, rest, by rw [List.reverse_append, hlater]; rfl⟩
  cases h with
  | @outermost later h => exact hreverse h
  | inner parts enclosing b later =>
    rw [Levels.finish, List.foldl_append]
    exact hreverse (List.cons_ne_nil _ later)

end Levels.Behind

/-- Tokens behind a part leave another part. -/
theorem foldl_behind (p : Part) {ts : List Token} (h : ts ≠ []) :
    ∃ q rest, (ts.foldl Levels.step ⟨[p], []⟩).finish = p :: q :: rest := by
  obtain ⟨t, ts, rfl⟩ := List.exists_cons_of_ne_nil h
  rw [List.foldl_cons]
  exact ((Levels.Behind.of_token p t).foldl ts).exists_finish

/-! ## Texts -/

/-- Blanks behind a document. -/
theorem ofText_blanks (d : Document) {blanks : List Char} (h : IsBlanks blanks) :
    ofText (String.ofList (d.print ++ blanks)) = [d.part] := by
  have hpad : Padded d.print (d.print ++ blanks) := ⟨[], blanks, isBlanks_nil, h, rfl⟩
  have hrun := (adds_print d).padded hpad [] ⟨[], []⟩ Token.closes_nil
  rw [List.append_nil] at hrun
  rw [ofText, String.toList_ofList, ofTokens, Token.ofText, ← run, hrun]
  rfl

/-- **Anything but blanks behind an object is another part.** -/
theorem exists_ofText_trailing (ms : List (String × Document)) {t : List Char}
    (h : ∃ c ∈ t, isBlank c = false) :
    ∃ p rest, ofText (String.ofList ((Document.object ms).print ++ t))
      = (Document.object ms).part :: p :: rest := by
  have hobject := run_object (Adds.commas (adds_printMembers ms)) ⟨[], []⟩ t
  rw [map_namedParts] at hobject
  obtain ⟨p, rest, hfinish⟩ := foldl_behind (Document.object ms).part (Token.scan_ne_nil h)
  refine ⟨p, rest, ?_⟩
  rw [ofText, String.toList_ofList, ofTokens, Token.ofText, ← run, print, hobject]
  exact hfinish

end Outline

end SqlTree.Json
