/-
What an argument list says about the options. Of the choices about an option the last one counts, or all of them in their
order, whatever is chosen in between about other options. In the list every flag is followed by its value and stands in its
place, so that it tells options apart even if values look like flags. Main statement: `arguments_determined`.
-/
import Mathlib.Data.List.Basic
import Verdicts.Engine.Options
import Verdicts.Proofs.Text.Decimal

namespace Verdicts.EngineOptions

/-- An option that is spelled as a flag with a value. -/
inductive Setting where
  | timeout
  | solver
  | logic
  | enabled
  | disabled
  | compositional
  | modular
  | top
  deriving DecidableEq

theorem getLast?_toList {α : Type} (value : Option α) : value.toList.getLast? = value := by
  cases value <;> rfl

namespace Setting

/-- The flag of an option. -/
def name : Setting → String
  | timeout => "--timeout"
  | solver => "--smt_solver"
  | logic => "--smt_logic"
  | enabled => "--enable"
  | disabled => "--disable"
  | compositional => "--compositional"
  | modular => "--modular"
  | top => "--lus_main"

/-- The options in the order of their flags. -/
def inOrder : List Setting := [timeout, solver, logic, enabled, disabled, compositional, modular, top]

/-- Of the values that are given to an option those that count: all of them for modules, else the last. -/
def counting (texts : List String) : Setting → List String
  | enabled | disabled => texts
  | timeout | solver | logic | compositional | modular | top => texts.getLast?.toList

theorem name_injective : Function.Injective name := by
  intro s t h
  cases s <;> cases t <;> first | rfl | exact absurd h (by decide)

theorem nodup_inOrder : inOrder.Nodup := by decide

theorem mem_inOrder (s : Setting) : s ∈ inOrder := by
  cases s <;> decide

/-- Values that do not count may be dropped before others are given. -/
theorem counting_append (earlier later : List String) (s : Setting) :
    s.counting (s.counting earlier ++ later) = s.counting (earlier ++ later) := by
  have hlast : (earlier.getLast?.toList ++ later).getLast? = (earlier ++ later).getLast? := by
    rw [List.getLast?_append, List.getLast?_append, getLast?_toList]
  cases s <;> first | rfl | exact congrArg Option.toList hlast

end Setting

/-- The texts of the values that an option has. -/
def values (o : EngineOptions) : Setting → List String
  | .timeout => (o.timeout.map Nat.repr).toList
  | .solver => o.solver.toList
  | .logic => o.logic.toList
  | .enabled => o.enabled
  | .disabled => o.disabled
  | .compositional => (o.compositional.map boolText).toList
  | .modular => (o.modular.map boolText).toList
  | .top => o.top.toList

/-! ## Choices -/

/-- One choice among those that options are made up from. Of a timeout nothing below a millisecond matters. -/
inductive Choice where
  | timeout (milliseconds : Nat)
  | solver (name : String)
  | logic (name : String)
  | enable (module : String)
  | disable (module : String)
  | compositional (on : Bool)
  | modular (on : Bool)
  | top (component : String)
  | arg (raw : String)

namespace Choice

/-- What a choice is about; nothing if it passes an argument on. -/
def about : Choice → Option Setting
  | timeout _ => some .timeout
  | solver _ => some .solver
  | logic _ => some .logic
  | enable _ => some .enabled
  | disable _ => some .disabled
  | compositional _ => some .compositional
  | modular _ => some .modular
  | top _ => some .top
  | arg _ => none

/-- The text of what is chosen: of a timeout the whole seconds, but not zero. -/
def text : Choice → String
  | timeout milliseconds => Nat.repr (max 1 (milliseconds / 1000))
  | solver name | logic name => name
  | enable module | disable module => module
  | compositional on | modular on => boolText on
  | top component => component
  | arg raw => raw

end Choice

/-- The options after a choice. -/
def choose (o : EngineOptions) : Choice → EngineOptions
  | .timeout milliseconds => o.withTimeout milliseconds
  | .solver name => o.withSolver name
  | .logic name => o.withLogic name
  | .enable module => o.enable module
  | .disable module => o.disable module
  | .compositional on => o.withCompositional on
  | .modular on => o.withModular on
  | .top component => o.withTop component
  | .arg raw => o.arg raw

/-- The options after several choices. -/
def chooseAll (o : EngineOptions) (choices : List Choice) : EngineOptions := choices.foldl choose o

/-- The texts that choices give to an option or pass on, in the order of the choices. -/
def given (about : Option Setting) (choices : List Choice) : List String :=
  (choices.filter (·.about = about)).map Choice.text

/-- The same values are chosen for each option, in the same order, and the same arguments passed on. -/
def SameChoices (choices choices' : List Choice) : Prop :=
  ∀ about, choices.filter (·.about = about) = choices'.filter (·.about = about)

theorem given_cons (about : Option Setting) (c : Choice) (choices : List Choice) :
    given about (c :: choices) = given about [c] ++ given about choices := by
  rw [given, given, given, ← List.map_append, ← List.filter_append, List.singleton_append]

theorem counting_values (o : EngineOptions) (s : Setting) : s.counting (o.values s) = o.values s := by
  cases s <;> first | rfl | exact congrArg Option.toList (getLast?_toList _)

theorem values_choose (o : EngineOptions) (c : Choice) (s : Setting) :
    (o.choose c).values s = s.counting (o.values s ++ given (some s) [c]) := by
  -- a choice about the option replaces or extends its values, any other leaves them alone
  by_cases h : c.about = some s
  · have hgiven : given (some s) [c] = [c.text] := by simp [given, h]
    rw [hgiven]
    cases c <;> cases h <;> simp [Setting.counting, values, choose, Choice.text, withTimeout, withSolver, withLogic,
      enable, disable, withCompositional, withModular, withTop]
  · have hgiven : given (some s) [c] = [] := by simp [given, h]
    rw [hgiven, List.append_nil, counting_values]
    cases c <;> cases s <;> first | rfl | exact absurd rfl h

/-- Each option keeps what counts of the values that it has and is given. -/
theorem values_chooseAll (o : EngineOptions) (choices : List Choice) (s : Setting) :
    (o.chooseAll choices).values s = s.counting (o.values s ++ given (some s) choices) := by
  induction choices generalizing o with
  | nil => rw [given, List.filter_nil, List.map_nil, List.append_nil, counting_values, chooseAll, List.foldl_nil]
  | cons c choices ih =>
    calc (o.chooseAll (c :: choices)).values s
      _ = s.counting ((o.choose c).values s ++ given (some s) choices) := ih (o.choose c)
      _ = s.counting (o.values s ++ given (some s) [c] ++ given (some s) choices) := by
        rw [values_choose, Setting.counting_append]
      _ = s.counting (o.values s ++ given (some s) (c :: choices)) := by rw [List.append_assoc, ← given_cons]

/-- All arguments are passed on. -/
theorem extra_chooseAll (o : EngineOptions) (choices : List Choice) :
    (o.chooseAll choices).extra = o.extra ++ given none choices := by
  induction choices generalizing o with
  | nil => exact (List.append_nil _).symm
  | cons c choices ih =>
    have hone : (o.choose c).extra = o.extra ++ given none [c] := by
      cases c <;> first | exact (List.append_nil _).symm | rfl
    calc (o.chooseAll (c :: choices)).extra
      _ = (o.choose c).extra ++ given none choices := ih (o.choose c)
      _ = o.extra ++ given none (c :: choices) := by rw [hone, List.append_assoc, ← given_cons]

/-! ## Flags and values -/

/-- The flags of some options, each before every value of its option. -/
def spelled (values : Setting → List String) (settings : List Setting) : List String :=
  settings.flatMap fun s => flags s.name (values s)

theorem flag_eq_flags (name : String) (value : Option String) : flag name value = flags name value.toList := by
  cases value <;> rfl

theorem toArgs_eq (o : EngineOptions) : o.toArgs = recordsFlag :: spelled o.values Setting.inOrder ++ o.extra := by
  simp [toArgs, spelled, Setting.inOrder, Setting.name, values, flag_eq_flags]

/-- The values of a flag end where something else than the flag stands in its place. -/
theorem flags_append_inj {name : String} {vs vs' rest rest' : List String} (hrest : rest.head? ≠ some name)
    (hrest' : rest'.head? ≠ some name) (h : flags name vs ++ rest = flags name vs' ++ rest') :
    vs = vs' ∧ rest = rest' := by
  induction vs generalizing vs' with
  | nil =>
    cases vs' with
    | nil => exact ⟨rfl, h⟩
    | cons v' vs' => exact absurd (congrArg List.head? h) hrest
  | cons v vs ih =>
    cases vs' with
    | nil => exact absurd (congrArg List.head? h.symm) hrest'
    | cons v' vs' =>
      have htails : v :: (flags name vs ++ rest) = v' :: (flags name vs' ++ rest') := List.tail_eq_of_cons_eq h
      obtain ⟨hv, htails⟩ := List.cons.inj htails
      obtain ⟨hvs, hrests⟩ := ih htails
      exact ⟨congrArg₂ List.cons hv hvs, hrests⟩

/-- Flags begin with that of one of their options. -/
theorem head?_spelled (values : Setting → List String) {settings : List Setting} {s : Setting} (hs : s ∉ settings) :
    (spelled values settings).head? ≠ some s.name := by
  induction settings with
  | nil => nofun
  | cons t settings ih =>
    rw [List.mem_cons, not_or] at hs
    rw [spelled, List.flatMap_cons]
    cases values t with
    | nil => exact ih hs.2
    | cons v vs => exact fun h => hs.1 (Setting.name_injective (Option.some.inj h)).symm

/-- Flags tell the values of all their options, also if a value looks like a flag. -/
theorem spelled_inj {values values' : Setting → List String} {settings : List Setting} (hnodup : settings.Nodup)
    (h : spelled values settings = spelled values' settings) : ∀ s ∈ settings, values s = values' s := by
  induction settings with
  | nil => nofun
  | cons t settings ih =>
    -- no flag of `t` stands behind its values, since every option has one place
    obtain ⟨ht, hnodup⟩ := List.nodup_cons.1 hnodup
    obtain ⟨hvalues, hrest⟩ := flags_append_inj (head?_spelled values ht) (head?_spelled values' ht) h
    exact List.forall_mem_cons.2 ⟨hvalues, ih hnodup hrest⟩

/-! ## Telling options apart -/

theorem boolText_injective : Function.Injective boolText := by
  intro b c h
  cases b <;> cases c <;> first | rfl | exact absurd h (by decide)

theorem repr_injective : Function.Injective Nat.repr := fun _ _ h =>
  Decimal.toDigits_injective (String.ofList_injective h)

theorem toList_injective {α : Type} : Function.Injective (@Option.toList α) :=
  Function.LeftInverse.injective fun _ => Option.head?_toList

/-- Options are known by the texts of their values and by what is passed on. -/
theorem eq_of_values {o o' : EngineOptions} (hvalues : ∀ s, o.values s = o'.values s) (hextra : o.extra = o'.extra) :
    o = o' := by
  have htimeout : o.timeout = o'.timeout := Option.map_injective repr_injective (toList_injective (hvalues .timeout))
  have hsolver : o.solver = o'.solver := toList_injective (hvalues .solver)
  have hlogic : o.logic = o'.logic := toList_injective (hvalues .logic)
  have henabled : o.enabled = o'.enabled := hvalues .enabled
  have hdisabled : o.disabled = o'.disabled := hvalues .disabled
  have hcompositional : o.compositional = o'.compositional :=
    Option.map_injective boolText_injective (toList_injective (hvalues .compositional))
  have hmodular : o.modular = o'.modular := Option.map_injective boolText_injective (toList_injective (hvalues .modular))
  have htop : o.top = o'.top := toList_injective (hvalues .top)
  cases o
  cases o'
  rw [EngineOptions.mk.injEq]
  exact ⟨htimeout, hsolver, hlogic, henabled, hdisabled, hcompositional, hmodular, htop, hextra⟩

theorem chooseAll_congr {choices choices' : List Choice} (h : SameChoices choices choices') (o : EngineOptions) :
    o.chooseAll choices = o.chooseAll choices' := by
  have hgiven : ∀ about, given about choices = given about choices' := fun about => congrArg (List.map _) (h about)
  refine eq_of_values (fun s => ?_) ?_
  · rw [values_chooseAll, values_chooseAll, hgiven]
  · rw [extra_chooseAll, extra_chooseAll, hgiven]

theorem eq_of_toArgs {o o' : EngineOptions} (hextra : o.extra = o'.extra) (h : o.toArgs = o'.toArgs) : o = o' := by
  rw [toArgs_eq, toArgs_eq, hextra] at h
  have hspelled := List.tail_eq_of_cons_eq (List.append_cancel_right h)
  exact eq_of_values (fun s => spelled_inj Setting.nodup_inOrder hspelled s (Setting.mem_inOrder s)) hextra

theorem toArgs_chooseAll (choices : List Choice) : (chooseAll {} choices).toArgs =
    recordsFlag :: spelled (fun s => s.counting (given (some s) choices)) Setting.inOrder ++ given none choices := by
  have hnone : ∀ s, ({} : EngineOptions).values s = [] := fun s => by cases s <;> rfl
  have hvalues : (chooseAll {} choices).values = fun s => s.counting (given (some s) choices) := by
    funext s
    rw [values_chooseAll, hnone, List.nil_append]
  rw [toArgs_eq, extra_chooseAll, hvalues, List.nil_append]

/-- The arguments spell what counts of the values chosen for each option, so they are the same for all choices that give
each option the same values in the same order; and among options that pass on the same arguments they determine the
options, whatever texts are chosen. -/
theorem arguments_determined :
    (∀ choices, (chooseAll {} choices).toArgs =
      recordsFlag :: spelled (fun s => s.counting (given (some s) choices)) Setting.inOrder ++ given none choices) ∧
    (∀ choices choices', SameChoices choices choices' →
      ∀ o : EngineOptions, (o.chooseAll choices).toArgs = (o.chooseAll choices').toArgs) ∧
    ∀ o o' : EngineOptions, o.extra = o'.extra → o.toArgs = o'.toArgs → o = o' :=
  ⟨toArgs_chooseAll, fun _ _ h o => congrArg toArgs (chooseAll_congr h o), fun _ _ => eq_of_toArgs⟩

/-- Choices of texts that look like flags. -/
def sampleChoices : List Choice :=
  [.enable "--disable", .timeout 30000, .arg "--enable", .enable "IC3", .solver "--timeout", .timeout 200]

/-- The same choices, those about one option together. -/
def sortedChoices : List Choice :=
  [.timeout 30000, .timeout 200, .solver "--timeout", .enable "--disable", .enable "IC3", .arg "--enable"]

theorem sortedChoices_arguments :
    SameChoices sampleChoices sortedChoices ∧
      (chooseAll {} sampleChoices).toArgs = ["-json", "--timeout", "1", "--smt_solver", "--timeout", "--enable",
        "--disable", "--enable", "IC3", "--enable"] ∧
      (chooseAll {} sampleChoices).toArgs = (chooseAll {} sortedChoices).toArgs ∧
      chooseAll {} sampleChoices = chooseAll {} sortedChoices := by
  have hsame : SameChoices sampleChoices sortedChoices := by
    rintro (_ | s)
    · rfl
    · cases s <;> rfl
  obtain ⟨hargs, hcongr, hinj⟩ := arguments_determined
  have heq := hcongr sampleChoices sortedChoices hsame {}
  exact ⟨hsame, by decide +kernel, heq, hinj _ _ rfl heq⟩

end Verdicts.EngineOptions
