/-
Logical names. One depth is cut off the end of a reported name, and only if something is left in front of it; a name with
no depth at its end is a logical name. So the attempts at a property share its name, whatever brackets that has. Main
statement: `logicalName_exact`.
-/
import Verdicts.Proofs.Result.Supersession
import Verdicts.Proofs.Text.Decimal

namespace Verdicts

/-- The name is `base` with a depth behind it: one or more ASCII digits in square brackets. -/
def AtDepth (base name : String) : Prop :=
  base ≠ "" ∧ ∃ depth, depth ≠ "" ∧ (∀ c ∈ depth.toList, c.isDigit = true) ∧ name = base ++ "[" ++ depth ++ "]"

/-! ## The last bracket -/

theorem splitLastOpen_go_append {inner : List Char} (h : '[' ∉ inner) (behind front : List Char) :
    splitLastOpen.go behind (inner ++ '[' :: front) = some (front, inner.reverse ++ behind) := by
  induction inner generalizing behind with
  | nil => rfl
  | cons c inner ih =>
    rw [List.mem_cons, not_or] at h
    rw [List.cons_append, splitLastOpen.go, if_neg (Ne.symm h.1), ih h.2, List.reverse_cons, List.append_assoc]
    rfl

/-- A text is cut at its first bracket; it is a name from its end, so that is the last bracket of the name. -/
theorem splitLastOpen_append {inner : List Char} (h : '[' ∉ inner) (front : List Char) :
    splitLastOpen (inner ++ '[' :: front) = some (front, inner.reverse) := by
  rw [splitLastOpen, splitLastOpen_go_append h, List.append_nil]

/-- The two sides of the bracket make up the text. -/
theorem eq_of_splitLastOpen {body front depth : List Char} (h : splitLastOpen body = some (front, depth)) :
    body = depth.reverse ++ '[' :: front := by
  have hgo : ∀ {body behind : List Char}, splitLastOpen.go behind body = some (front, depth) →
      behind.reverse ++ body = depth.reverse ++ '[' :: front := by
    intro body
    induction body with
    | nil => nofun
    | cons c rest ih =>
      intro behind h
      rw [splitLastOpen.go] at h
      split at h
      · rename_i hc
        cases h
        rw [hc]
      · simpa using ih h
  exact hgo h

/-! ## One depth less -/

theorem withoutDepth_append {base depth : List Char} (hbase : base ≠ []) (hdepth : depth ≠ [])
    (hdigits : ∀ c ∈ depth, c.isDigit = true) : withoutDepth (base ++ '[' :: depth ++ [']']) = base := by
  have hplain : '[' ∉ depth.reverse := fun h => absurd (hdigits _ (List.mem_reverse.1 h)) (by decide)
  have hreverse : (base ++ '[' :: depth ++ [']']).reverse = ']' :: (depth.reverse ++ '[' :: base.reverse) := by simp
  unfold withoutDepth
  rw [hreverse]
  simp only
  rw [splitLastOpen_append hplain, List.reverse_reverse]
  simp only
  rw [if_pos ⟨hdepth, List.all_eq_true.2 hdigits, by simpa using hbase⟩, List.reverse_reverse]

theorem withoutDepth_cases (name : List Char) : withoutDepth name = name ∨
    withoutDepth name ≠ [] ∧ ∃ depth, depth ≠ [] ∧ (∀ c ∈ depth, c.isDigit = true) ∧
      name = withoutDepth name ++ '[' :: depth ++ [']'] := by
  -- a name is only cut if all three tests succeed
  unfold withoutDepth
  split
  · rename_i body hbody
    split
    · rename_i front depth hsplit
      split
      · rename_i h
        refine .inr ⟨by simpa using h.2.2, depth, h.1, List.all_eq_true.1 h.2.1, ?_⟩
        rw [← List.reverse_reverse name, hbody, eq_of_splitLastOpen hsplit]
        simp
      · exact .inl rfl
    · exact .inl rfl
  · exact .inl rfl

/-! ## Logical names -/

theorem AtDepth.logicalName {base name : String} (h : AtDepth base name) : logicalName name = base := by
  obtain ⟨hbase, depth, hdepth, hdigits, rfl⟩ := h
  have hlist : (base ++ "[" ++ depth ++ "]").toList = base.toList ++ '[' :: depth.toList ++ [']'] := by simp
  rw [Verdicts.logicalName, hlist, withoutDepth_append (by simpa using hbase) (by simpa using hdepth) hdigits,
    String.ofList_toList]

/-- A name is its own logical name, or it is that with a depth behind it. -/
theorem logicalName_cases (name : String) : logicalName name = name ∨ AtDepth (logicalName name) name := by
  rcases withoutDepth_cases name.toList with h | ⟨hbase, depth, hdepth, hdigits, h⟩
  · exact .inl (by rw [logicalName, h, String.ofList_toList])
  · refine .inr ⟨fun hempty => hbase ?_, String.ofList depth, fun hempty => hdepth ?_, by simpa using hdigits, ?_⟩
    · simpa [logicalName] using congrArg String.toList hempty
    · simpa using congrArg String.toList hempty
    · rw [← String.toList_inj]
      simpa [logicalName] using h

theorem AtDepth.unique {base base' name : String} (h : AtDepth base name) (h' : AtDepth base' name) : base = base' :=
  h.logicalName.symm.trans h'.logicalName

theorem logicalName_eq_iff {name base : String} :
    logicalName name = base ↔ AtDepth base name ∨ (¬∃ b, AtDepth b name) ∧ base = name := by
  constructor
  · rintro rfl
    rcases logicalName_cases name with h | h
    · by_cases hdepth : ∃ b, AtDepth b name
      · obtain ⟨b, hb⟩ := hdepth
        exact .inl (hb.logicalName.symm ▸ hb)
      · exact .inr ⟨hdepth, h⟩
    · exact .inl h
  · rintro (h | ⟨hnone, rfl⟩)
    · exact h.logicalName
    · exact (logicalName_cases base).resolve_right fun h => hnone ⟨_, h⟩

theorem logicalName_ne_empty {name : String} (h : name ≠ "") : logicalName name ≠ "" := by
  rcases logicalName_cases name with heq | hdepth
  · rwa [heq]
  · exact hdepth.1

theorem atDepth_repr {base : String} (h : base ≠ "") (k : Nat) : AtDepth base (base ++ "[" ++ Nat.repr k ++ "]") := by
  have hdigits := Decimal.digits_toDigits k
  have hlist : (Nat.repr k).toList = Nat.toDigits 10 k := by rw [Nat.repr, String.toList_ofList]
  refine ⟨h, Nat.repr k, fun hempty => hdigits.1 ?_, by rw [hlist]; exact hdigits.2.1, rfl⟩
  rw [← hlist, hempty]
  rfl

/-- The attempts under a name are those that were reported under it or at a depth of it. -/
theorem mem_attempts_pushAll {a : Analysis} (hdecoded : a.decoded = []) (hledger : a.ledger = []) {ps : List Property}
    {p : Property} {base : String} : p ∈ (ps.foldl Analysis.push a).attempts base ↔
      p ∈ ps ∧ (AtDepth base p.name ∨ (¬∃ b, AtDepth b p.name) ∧ base = p.name) := by
  have htidy := ((Analysis.ordered_of_empty hdecoded hledger).pushAll ps).toTidy
  rw [htidy.attempts_eq, Analysis.decoded_pushAll, hdecoded, List.nil_append, List.mem_filter, decide_eq_true_eq,
    Property.displayName, logicalName_eq_iff]

/-- The logical name of a reported name is the one that has a depth behind it there, of which there is no other, and the
name itself if there is none. All depths of a name that is not empty share it, the attempts at them are kept together
under it, and a name that is not empty has such a logical name. -/
theorem logicalName_exact :
    (∀ name base, logicalName name = base ↔ AtDepth base name ∨ (¬∃ b, AtDepth b name) ∧ base = name) ∧
    (∀ name base base', AtDepth base name → AtDepth base' name → base = base') ∧
    (∀ base ≠ "", ∀ k, logicalName (base ++ "[" ++ Nat.repr k ++ "]") = base) ∧
    (∀ name ≠ "", logicalName name ≠ "") ∧
    ∀ (a : Analysis) (ps : List Property), a.decoded = [] → a.ledger = [] → ∀ p base,
      p ∈ (ps.foldl Analysis.push a).attempts base ↔
        p ∈ ps ∧ (AtDepth base p.name ∨ (¬∃ b, AtDepth b p.name) ∧ base = p.name) :=
  ⟨fun _ _ => logicalName_eq_iff, fun _ _ _ => AtDepth.unique, fun _ h k => (atDepth_repr h k).logicalName,
    fun _ => logicalName_ne_empty, fun _ _ hdecoded hledger _ _ => mem_attempts_pushAll hdecoded hledger⟩

/-- Of two depths one is cut off, a position stays, and a depth alone is a name. -/
theorem logicalName_exact_nested :
    AtDepth "ok[3]" "ok[3][4]" ∧ logicalName "ok[3][4]" = "ok[3]" ∧ logicalName "g[l12c5][2]" = "g[l12c5]" ∧
      logicalName "[4]" ≠ "" := by
  obtain ⟨hiff, -, hdepths, hne, -⟩ := logicalName_exact
  have hdepth : AtDepth "ok[3]" "ok[3][4]" := atDepth_repr (by decide) 4
  exact ⟨hdepth, (hiff _ _).2 (.inl hdepth), hdepths "g[l12c5]" (by decide) 2, hne "[4]" (by decide)⟩

end Verdicts
