/-
Feeding a decoder in chunks. The bytes fed decide alone what a decoder knows and how it fails; where
they are cut does not matter. The first failure is final: no later call changes anything, and each
answers that decoding was aborted.

The proof is that running over two parts is running over the first and then the second
(`run_append`), together with the invariant that a decoder is aborted exactly behind a failure.
-/
import Verdicts.Stream.Decoder

namespace Verdicts

namespace Decoder

/-! ## Calls -/

/-- What a caller can ask of a decoder. -/
inductive Call where
  | feed (chunk : Bytes)
  | finish
  deriving DecidableEq, Repr

/-- One call, with what it answers. -/
def call (d : Decoder) : Call → Decoder × Option DecodeError
  | .feed chunk => d.feed chunk
  | .finish => d.finish

/-- Calls one after the other, behind a failure too, with what each of them answers. -/
def calls (d : Decoder) : List Call → Decoder × List (Option DecodeError)
  | [] => (d, [])
  | c :: cs =>
    let (d, answer) := d.call c
    let (d, answers) := d.calls cs
    (d, answer :: answers)

/-- The first failure among answers. -/
def firstFailure (answers : List (Option DecodeError)) : Option DecodeError :=
  answers.findSome? id

/-- The bytes that calls feed. -/
def fed : List Call → Bytes
  | [] => []
  | .feed chunk :: cs => chunk ++ fed cs
  | .finish :: cs => fed cs

@[simp] theorem calls_nil (d : Decoder) : d.calls [] = (d, []) := rfl

@[simp] theorem calls_cons (d : Decoder) (c : Call) (cs : List Call) :
    d.calls (c :: cs) = (((d.call c).1.calls cs).1, (d.call c).2 :: ((d.call c).1.calls cs).2) := rfl

@[simp] theorem firstFailure_none (answers : List (Option DecodeError)) :
    firstFailure (none :: answers) = firstFailure answers := rfl

@[simp] theorem firstFailure_some (e : DecodeError) (answers : List (Option DecodeError)) :
    firstFailure (some e :: answers) = some e := rfl

theorem calls_append (d : Decoder) :
    ∀ cs ds : List Call, d.calls (cs ++ ds) =
      (((d.calls cs).1.calls ds).1, (d.calls cs).2 ++ ((d.calls cs).1.calls ds).2)
  | [], ds => rfl
  | c :: cs, ds => by
    rw [List.cons_append, calls_cons, calls_append (d.call c).1 cs ds]
    rfl

/-! ## Running over bytes -/

@[simp] theorem run_nil (d : Decoder) : d.run [] = (d, none) := rfl

theorem run_cons_none {d d' : Decoder} {b : UInt8} (h : d.step b = (d', none)) (rest : Bytes) :
    d.run (b :: rest) = d'.run rest := by
  rw [run, h]

theorem run_cons_some {d d' : Decoder} {b : UInt8} {e : DecodeError} (h : d.step b = (d', some e))
    (rest : Bytes) : d.run (b :: rest) = (d', some e) := by
  rw [run, h]

/-- Running over two parts is running over the first and, unless that fails, over the second. -/
theorem run_append (d : Decoder) :
    ∀ s t : Bytes, d.run (s ++ t) =
      match d.run s with
      | (d, none) => d.run t
      | (d, some e) => (d, some e)
  | [], t => rfl
  | b :: s, t => by
    rw [List.cons_append]
    rcases h : d.step b with ⟨d', _ | e⟩
    · rw [run_cons_none h, run_cons_none h]
      exact run_append d' s t
    · rw [run_cons_some h, run_cons_some h]

/-- A byte aborts a decoder exactly if decoding fails at it. -/
theorem step_aborted {d : Decoder} (hd : d.aborted = false) (b : UInt8) :
    (d.step b).1.aborted = (d.step b).2.isSome := by
  unfold step
  rcases d.scanner.step b with _ | ⟨scanner, _ | raw⟩
  · rfl
  · exact hd
  · rfl

theorem run_aborted {d : Decoder} (hd : d.aborted = false) (s : Bytes) :
    (d.run s).1.aborted = (d.run s).2.isSome := by
  induction s generalizing d with
  | nil => exact hd
  | cons b s ih =>
    have hb := step_aborted hd b
    rcases h : d.step b with ⟨d', _ | e⟩
    · rw [h] at hb
      rw [run_cons_none h]
      exact ih hb
    · rw [h] at hb
      rw [run_cons_some h]
      exact hb

/-! ## Single calls -/

theorem feed_of_live {d : Decoder} (hd : d.aborted = false) (s : Bytes) : d.feed s = d.run s := by
  rw [feed, hd]; rfl

/-- An aborted decoder is left as it is by every call. -/
theorem call_of_aborted {d : Decoder} (hd : d.aborted = true) (c : Call) :
    d.call c = (d, some .aborted) := by
  cases c with
  | feed s => simp only [call, feed, hd, if_true]
  | finish => simp only [call, finish, hd, if_true]

/-- A call aborts a decoder exactly if it fails. -/
theorem call_aborted {d : Decoder} (hd : d.aborted = false) (c : Call) :
    (d.call c).1.aborted = (d.call c).2.isSome := by
  cases c with
  | feed s =>
    rw [call, feed_of_live hd]
    exact run_aborted hd s
  | finish =>
    simp only [call, finish, hd, Bool.false_eq_true, if_false]
    split
    · rfl
    · exact hd

/-- Feeding two parts in one call is feeding them in two. -/
theorem feed_append {d d' : Decoder} {s : Bytes} (h : d.feed s = (d', none)) (t : Bytes) :
    d.feed (s ++ t) = d'.feed t := by
  cases hd : d.aborted with
  | true =>
    have hs := call_of_aborted hd (.feed s)
    rw [call, h] at hs
    cases hs
  | false =>
    rw [feed_of_live hd] at h
    have hd' := run_aborted hd s
    rw [h] at hd'
    rw [feed_of_live hd, feed_of_live hd', run_append, h]

/-- A failing call fails with whatever is appended to its chunk. -/
theorem feed_append_of_some {d d' : Decoder} {s : Bytes} {e : DecodeError} (h : d.feed s = (d', some e))
    (t : Bytes) : d.feed (s ++ t) = (d', some e) := by
  cases hd : d.aborted with
  | true => rw [← h]; simp only [feed, hd, if_true]
  | false =>
    rw [feed_of_live hd] at h
    rw [feed_of_live hd, run_append, h]

/-! ## Many calls -/

theorem calls_of_aborted {d : Decoder} (hd : d.aborted = true) :
    ∀ cs : List Call, d.calls cs = (d, List.replicate cs.length (some .aborted))
  | [] => rfl
  | c :: cs => by
    rw [calls_cons, call_of_aborted hd, calls_of_aborted hd cs]
    rfl

/-- Calls abort a decoder exactly if one of them fails. -/
theorem calls_aborted {d : Decoder} (hd : d.aborted = false) (cs : List Call) :
    (d.calls cs).1.aborted = (firstFailure (d.calls cs).2).isSome := by
  induction cs generalizing d with
  | nil => exact hd
  | cons c cs ih =>
    have hc := call_aborted hd c
    rw [calls_cons]
    rcases h : d.call c with ⟨d', _ | e⟩
    · rw [h] at hc
      exact ih hc
    · rw [h] at hc
      rw [calls_of_aborted hc, firstFailure_some]
      exact hc

/-- Behind a failure every call leaves the decoder as it is and answers that decoding was aborted. -/
theorem calls_behind_failure {cs : List Call} {e : DecodeError}
    (h : firstFailure (calls {} cs).2 = some e) (ds : List Call) :
    (calls {} cs).1.calls ds = ((calls {} cs).1, List.replicate ds.length (some .aborted)) := by
  have ha := calls_aborted (d := {}) rfl cs
  rw [h] at ha
  exact calls_of_aborted ha ds

/-- Calls of which none fails run the decoder over the bytes that they feed. -/
theorem run_fed {d : Decoder} (hd : d.aborted = false) {cs : List Call}
    (h : firstFailure (d.calls cs).2 = none) : d.run (fed cs) = ((d.calls cs).1, none) := by
  induction cs generalizing d with
  | nil => rfl
  | cons c cs ih =>
    have hc := call_aborted hd c
    rw [calls_cons] at h ⊢
    rcases hcall : d.call c with ⟨d', _ | e⟩
    · rw [hcall] at hc h
      -- a call that does not fail runs over its chunk, or finishes and changes nothing
      cases c with
      | feed chunk =>
        rw [call, feed_of_live hd] at hcall
        rw [fed, run_append, hcall]
        exact ih hc h
      | finish =>
        have hsame : d' = d := by
          simp only [call, finish, hd, Bool.false_eq_true, if_false] at hcall
          split at hcall <;> cases hcall
          rfl
        subst hsame
        exact ih hc h
    · rw [hcall] at h
      cases h

/-- Feeding chunks and finishing comes to the same as feeding them all at once and finishing. -/
theorem calls_flatten (d : Decoder) (chunks : List Bytes) :
    (d.calls (chunks.map .feed ++ [.finish])).1 = (d.calls [.feed chunks.flatten, .finish]).1 ∧
      firstFailure (d.calls (chunks.map .feed ++ [.finish])).2 =
        firstFailure (d.calls [.feed chunks.flatten, .finish]).2 := by
  cases hd : d.aborted with
  | true =>
    rw [calls_of_aborted hd, calls_of_aborted hd]
    exact ⟨rfl, by simp [List.replicate_succ]⟩
  | false =>
    induction chunks generalizing d with
    | nil =>
      have hnil : d.call (.feed []) = (d, none) := feed_of_live hd []
      rw [List.flatten_nil, calls_cons d (.feed []), hnil]
      exact ⟨rfl, rfl⟩
    | cons chunk rest ih =>
      rw [List.map_cons, List.cons_append, List.flatten_cons, calls_cons, calls_cons]
      have hc := call_aborted hd (.feed chunk)
      rcases h : d.feed chunk with ⟨d', _ | e⟩
      · have hcall : d.call (.feed chunk) = (d', none) := h
        rw [hcall] at hc
        have hall : d.call (.feed (chunk ++ rest.flatten)) = d'.call (.feed rest.flatten) :=
          feed_append h rest.flatten
        rw [hcall, hall]
        exact ih d' hc
      · -- the first failure is final, whatever bytes stand behind it
        have hcall : d.call (.feed chunk) = (d', some e) := h
        rw [hcall] at hc
        have hall : d.call (.feed (chunk ++ rest.flatten)) = (d', some e) :=
          feed_append_of_some h rest.flatten
        rw [hcall, hall]
        simp only [calls_of_aborted hc, firstFailure_some, and_self]

/-- Feeding chunks up to the first failure comes to the same as feeding them all at once. -/
theorem feedAll_flatten (chunks : List Bytes) :
    (feedAll {} chunks).1 = (feed {} chunks.flatten).1 ∧
      (feedAll {} chunks).2.map (·.2) = (feed {} chunks.flatten).2 := by
  have go : ∀ (chunks : List Bytes) (d : Decoder) (index : Nat), d.aborted = false →
      (feedAll.go d index chunks).1 = (d.feed chunks.flatten).1 ∧
        (feedAll.go d index chunks).2.map (·.2) = (d.feed chunks.flatten).2 := by
    intro chunks
    induction chunks with
    | nil =>
      intro d index hd
      rw [feed_of_live hd]
      exact ⟨rfl, rfl⟩
    | cons chunk rest ih =>
      intro d index hd
      have hc := call_aborted hd (.feed chunk)
      rw [feedAll.go, List.flatten_cons]
      rcases h : d.feed chunk with ⟨d', _ | e⟩
      · rw [call, h] at hc
        rw [feed_append h]
        exact ih d' (index + 1) hc
      · rw [feed_append_of_some h]
        exact ⟨rfl, rfl⟩
  exact go chunks {} 0 rfl

/-! ## Completing an output -/

/-- Feed what is left of an output and finish, as far as decoding gets. -/
def complete (d : Decoder) (t : Bytes) : Decoder × Option DecodeError :=
  match d.run t with
  | (d, none) => d.finish
  | (d, some e) => (d, some e)

/-- Completing an output comes to the same as the two calls. -/
theorem calls_complete {d : Decoder} (hd : d.aborted = false) (t : Bytes) :
    (d.calls [.feed t, .finish]).1 = (d.complete t).1 ∧
      firstFailure (d.calls [.feed t, .finish]).2 = (d.complete t).2 := by
  have hc := run_aborted hd t
  have hcall : d.call (.feed t) = d.run t := feed_of_live hd t
  rw [calls_cons, calls_cons, calls_nil, hcall, complete]
  rcases h : d.run t with ⟨d', _ | e⟩
  · have hfinish : d'.call .finish = d'.finish := rfl
    refine ⟨congrArg Prod.fst hfinish, ?_⟩
    simp only [hfinish, firstFailure_none]
    rcases d'.finish with ⟨d'', _ | e⟩
    · rfl
    · rfl
  · rw [h] at hc
    simp only [call_of_aborted hc, firstFailure_some, and_self]

theorem complete_append {d d' : Decoder} {s : Bytes} (h : d.run s = (d', none)) (t : Bytes) :
    d.complete (s ++ t) = d'.complete t := by
  rw [complete, run_append, h]
  rfl

/-- Decoding a complete output is completing it with a fresh decoder. -/
theorem decodeOutput_eq (output : Bytes) :
    decodeOutput output =
      match complete {} output with
      | (d, none) => .ok d
      | (d, some e) => .error ⟨e, d⟩ := by
  rw [decodeOutput, complete, feed_of_live rfl]
  rcases run {} output with ⟨d, _ | e⟩
  · simp only
    rcases d.finish with ⟨d', _ | e⟩
    · rfl
    · rfl
  · rfl

theorem decodeOutput_eq_ok_iff {output : Bytes} {d : Decoder} :
    decodeOutput output = .ok d ↔ complete {} output = (d, none) := by
  rw [decodeOutput_eq]
  rcases complete {} output with ⟨d', _ | e⟩ <;> simp

theorem decodeOutput_eq_error_iff {output : Bytes} {d : Decoder} {e : DecodeError} :
    decodeOutput output = .error ⟨e, d⟩ ↔ complete {} output = (d, some e) := by
  rw [decodeOutput_eq]
  rcases complete {} output with ⟨d', _ | e'⟩ <;> simp [and_comm]

/-! ## Chunking never matters -/

/-- However an output is cut into chunks, feeding them one after the other to a fresh decoder and
finishing leaves the same decoder (model, transcript, aborted or not) and has the same first failure
as feeding the output at once and finishing, which is decoding it as a whole. Whatever is called
behind the first failure leaves the decoder as it is and answers that decoding was aborted. -/
theorem chunking_irrelevant (chunks : List Bytes) :
    (calls {} (chunks.map .feed ++ [.finish])).1 = (calls {} [.feed chunks.flatten, .finish]).1 ∧
      firstFailure (calls {} (chunks.map .feed ++ [.finish])).2 =
        firstFailure (calls {} [.feed chunks.flatten, .finish]).2 ∧
      (decodeOutput chunks.flatten =
        match firstFailure (calls {} (chunks.map .feed ++ [.finish])).2 with
        | none => .ok (calls {} (chunks.map .feed ++ [.finish])).1
        | some e => .error ⟨e, (calls {} (chunks.map .feed ++ [.finish])).1⟩) ∧
      ∀ (cs ds : List Call) (e : DecodeError), firstFailure (calls {} cs).2 = some e →
        calls {} (cs ++ ds) =
          ((calls {} cs).1, (calls {} cs).2 ++ List.replicate ds.length (some .aborted)) := by
  obtain ⟨hstate, hfailure⟩ := calls_flatten {} chunks
  refine ⟨hstate, hfailure, ?_, fun cs ds e h => ?_⟩
  · obtain ⟨hcomplete, hanswer⟩ := calls_complete (d := {}) rfl chunks.flatten
    rw [hstate, hfailure, hcomplete, hanswer, decodeOutput_eq]
    rcases complete {} chunks.flatten with ⟨d, _ | e⟩
    · rfl
    · rfl
  · rw [calls_append, calls_behind_failure h]

end Decoder

end Verdicts
