import PathRegistry.CommandLine
import PathRegistry.Proofs.Configuration

/-!
# Options anywhere

The arguments of a run are pieces: the words of a command, options with their values behind them,
and flags.  No word and no value is itself the name of an option or a flag, and each name stands
there at most once.  Then it does not matter between which words the options and flags stand.

The run takes them out one after the other, each by a search that knows nothing of the others, so
what carries the proof is that each search takes out one whole piece and leaves pieces.  A search
would go wrong only where a word or a value looks like a name.

## Main statements

* `CommandLine.extractOption_args`, `CommandLine.extractFlag_args` — one search.
* `CommandLine.invocation_args` — all of them.
* `CommandLine.options_anywhere` — the run is the one with the options in front.
-/

namespace PathRegistry.CommandLine

/-- The names of the options. -/
def optionNames : List Text := [configOption, storeOption]

/-- The names of the flags. -/
def flagNames : List Text := [shortFlag, longFlag]

theorem option_ne_flag {name flag : Text} (hName : name ∈ optionNames) (hFlag : flag ∈ flagNames) :
    name ≠ flag := by
  have hAll : ∀ name ∈ optionNames, ∀ flag ∈ flagNames, name ≠ flag := by decide
  exact hAll name hName flag hFlag

/-- What stands among the arguments. -/
inductive Piece where
  | word (t : Text)
  /-- An option and the value behind it. -/
  | option (name value : Text)
  | flag (name : Text)
deriving DecidableEq

namespace Piece

/-- The arguments that a piece consists of. -/
def args : Piece → List Text
  | word t => [t]
  | option name value => [name, value]
  | flag name => [name]

/-- The word that a piece is, if it is one. -/
def word? : Piece → Option Text
  | word t => some t
  | option _ _ | flag _ => none

/-- The name of an option or a flag. -/
def name? : Piece → Option Text
  | word _ => none
  | option name _ => some name
  | flag name => some name

@[simp] theorem name?_word (t : Text) : (word t).name? = none := rfl

@[simp] theorem name?_option (name value : Text) : (option name value).name? = some name := rfl

@[simp] theorem name?_flag (name : Text) : (flag name).name? = some name := rfl

/-- A word has no name. -/
theorem word?_eq_none {p : Piece} (hName : p.name?.isSome) : p.word? = none := by
  cases p with
  | word t => cases hName
  | option n value => rfl
  | flag n => rfl

/-- The value of an option, if it has the given name. -/
def valueOf? (name : Text) : Piece → Option Text
  | option n value => if n = name then some value else none
  | word _ | flag _ => none

theorem valueOf?_eq_some {p : Piece} {name value : Text} :
    p.valueOf? name = some value ↔ p = .option name value := by
  cases p with
  | word t => simp [valueOf?]
  | option n v => by_cases hName : n = name <;> simp [valueOf?, hName]
  | flag n => simp [valueOf?]

/-- Whether a piece is what it seems to be: options and flags go by their names, and nothing else
does. -/
def IsGenuine : Piece → Prop
  | word t => t ∉ optionNames ++ flagNames
  | option name value => name ∈ optionNames ∧ value ∉ optionNames ++ flagNames
  | flag name => name ∈ flagNames

instance : DecidablePred IsGenuine
  | word t => inferInstanceAs (Decidable (t ∉ _))
  | option name value => inferInstanceAs (Decidable (name ∈ _ ∧ value ∉ _))
  | flag name => inferInstanceAs (Decidable (name ∈ _))

end Piece

/-- Pieces that are what they seem to be, no two of one name. -/
structure IsArranged (ps : List Piece) : Prop where
  /-- Each is what it seems to be. -/
  genuine : ∀ p ∈ ps, p.IsGenuine
  /-- No two have one name. -/
  once : (ps.filterMap Piece.name?).Nodup

instance (ps : List Piece) : Decidable (IsArranged ps) :=
  decidable_of_iff ((∀ p ∈ ps, p.IsGenuine) ∧ (ps.filterMap Piece.name?).Nodup)
    ⟨fun h => ⟨h.1, h.2⟩, fun h => ⟨h.1, h.2⟩⟩

/-- The arguments that pieces consist of. -/
def argsOf (ps : List Piece) : List Text := ps.flatMap Piece.args

/-- The words among pieces. -/
def wordsOf (ps : List Piece) : List Text := ps.filterMap Piece.word?

/-- The value of the option of a name. -/
def valueOf? (name : Text) (ps : List Piece) : Option Text := ps.findSome? (Piece.valueOf? name)

/-- Pieces without those of a name. -/
def without (name : Text) (ps : List Piece) : List Piece := ps.filter (·.name? ≠ some name)

/-- The same pieces, with the options and flags in front of the words. -/
def inFront (ps : List Piece) : List Piece :=
  ps.filter (·.name?.isSome) ++ ps.filter fun p => !p.name?.isSome

variable {name : Text} {p : Piece} {ps : List Piece}

namespace IsArranged

theorem tail (h : IsArranged (p :: ps)) : IsArranged ps :=
  ⟨fun q hq => h.genuine q (List.mem_cons_of_mem p hq),
    h.once.sublist ((List.sublist_cons_self p ps).filterMap _)⟩

theorem without (h : IsArranged ps) (name : Text) : IsArranged (without name ps) :=
  ⟨fun q hq => h.genuine q (List.mem_filter.mp hq).1,
    h.once.sublist (List.filter_sublist.filterMap _)⟩

theorem perm {qs : List Piece} (h : IsArranged ps) (hPerm : qs.Perm ps) : IsArranged qs :=
  ⟨fun q hq => h.genuine q (hPerm.mem_iff.mp hq),
    (hPerm.filterMap Piece.name?).nodup_iff.mpr h.once⟩

/-- Behind a piece of a name there is no other one. -/
theorem without_tail (h : IsArranged (p :: ps)) (hName : p.name? = some name) :
    CommandLine.without name ps = ps := by
  have hOnce := h.once
  rw [List.filterMap_cons_some hName, List.nodup_cons] at hOnce
  refine List.filter_eq_self.mpr fun q hq => decide_eq_true fun hSame => hOnce.1 ?_
  exact List.mem_filterMap.mpr ⟨q, hq, hSame⟩

/-- The option of a name is found where it stands. -/
theorem valueOf?_eq_some (h : IsArranged ps) {value : Text} :
    valueOf? name ps = some value ↔ .option name value ∈ ps := by
  induction ps with
  | nil => simp [valueOf?]
  | cons p ps ih =>
    have hRest := ih h.tail
    rw [valueOf?] at hRest ⊢
    rw [List.findSome?_cons, List.mem_cons]
    cases hValue : p.valueOf? name with
    | none =>
      have hOther : p ≠ .option name value := fun hSame => by
        rw [Piece.valueOf?_eq_some.mpr hSame] at hValue
        cases hValue
      simp only [hRest, Ne.symm hOther, false_or]
    | some other =>
      obtain rfl := Piece.valueOf?_eq_some.mp hValue
      have hLater : .option name value ∉ ps := by
        intro hMem
        have hNone : CommandLine.without name ps = ps := h.without_tail rfl
        rw [← hNone] at hMem
        simpa using (List.mem_filter.mp hMem).2
      simp [hLater, eq_comm]

end IsArranged

/-! ## One search -/

theorem without_cons_self (hName : p.name? = some name) :
    without name (p :: ps) = without name ps :=
  List.filter_cons_of_neg (by simpa using hName)

theorem without_cons_other (hName : p.name? ≠ some name) :
    without name (p :: ps) = p :: without name ps :=
  List.filter_cons_of_pos (by simpa using hName)

/-- A search for an option passes over an argument that is not its name. -/
theorem extractOption_cons {a : Text} {args rest : List Text} {value : Option Text}
    (hOther : a ≠ name) (hRest : extractOption name args = .ok (value, rest)) :
    extractOption name (a :: args) = .ok (value, a :: rest) := by
  rw [extractOption.eq_def]
  simp only [if_neg hOther, hRest]

/-- A search for a flag passes over an argument that is not its name. -/
theorem extractFlag_cons {a : Text} {args : List Text} (hOther : a ≠ name) :
    extractFlag name (a :: args) =
      ((extractFlag name args).1, a :: (extractFlag name args).2) := by
  rw [extractFlag, if_neg hOther]

/-- **An option is taken out whole**, with its value, and pieces are left. -/
theorem extractOption_args (hName : name ∈ optionNames) (h : IsArranged ps) :
    extractOption name (argsOf ps) = .ok (valueOf? name ps, argsOf (without name ps)) := by
  induction ps with
  | nil => rfl
  | cons p ps ih =>
    have hRest := ih h.tail
    have hGenuine := h.genuine p List.mem_cons_self
    have hReserved {t : Text} (ht : t ∉ optionNames ++ flagNames) : t ≠ name :=
      fun hSame => ht (List.mem_append_left _ (hSame ▸ hName))
    cases p with
    | word t =>
      rw [without_cons_other (by simp)]
      exact extractOption_cons (hReserved hGenuine) hRest
    | flag n =>
      have hOther : n ≠ name := (option_ne_flag hName hGenuine).symm
      rw [without_cons_other (by simpa using hOther)]
      exact extractOption_cons hOther hRest
    | option n value =>
      by_cases hSame : n = name
      · subst hSame
        rw [without_cons_self rfl, h.without_tail rfl]
        show extractOption n (n :: value :: argsOf ps) = _
        simp [extractOption.eq_def, valueOf?, Piece.valueOf?]
      · rw [without_cons_other (by simpa using hSame)]
        have hPassed : valueOf? name (.option n value :: ps) = valueOf? name ps := by
          simp [valueOf?, Piece.valueOf?, hSame]
        rw [hPassed]
        exact extractOption_cons hSame (extractOption_cons (hReserved hGenuine.2) hRest)

/-- **A flag is taken out**, and pieces are left. -/
theorem extractFlag_args (hName : name ∈ flagNames) (h : IsArranged ps) :
    extractFlag name (argsOf ps) = (decide (.flag name ∈ ps), argsOf (without name ps)) := by
  induction ps with
  | nil => rfl
  | cons p ps ih =>
    have hRest := ih h.tail
    have hGenuine := h.genuine p List.mem_cons_self
    have hReserved {t : Text} (ht : t ∉ optionNames ++ flagNames) : t ≠ name :=
      fun hSame => ht (List.mem_append_right _ (hSame ▸ hName))
    cases p with
    | word t =>
      show extractFlag name (t :: argsOf ps) = _
      rw [without_cons_other (by simp), extractFlag_cons (hReserved hGenuine), hRest]
      simp [argsOf, Piece.args]
    | option n value =>
      show extractFlag name (n :: value :: argsOf ps) = _
      have hOther : n ≠ name := option_ne_flag hGenuine.1 hName
      rw [without_cons_other (by simpa using hOther),
        extractFlag_cons hOther, extractFlag_cons (hReserved hGenuine.2), hRest]
      simp [argsOf, Piece.args]
    | flag n =>
      show extractFlag name (n :: argsOf ps) = _
      by_cases hSame : n = name
      · subst hSame
        rw [without_cons_self rfl, h.without_tail rfl]
        simp [extractFlag]
      · rw [without_cons_other (by simpa using hSame), extractFlag_cons hSame, hRest]
        simp [argsOf, Piece.args, Ne.symm hSame]

/-! ## All searches -/

theorem mem_without : p ∈ without name ps ↔ p ∈ ps ∧ p.name? ≠ some name := by
  simp [without]

/-- The value of an option stays findable when pieces of another name are taken out. -/
theorem IsArranged.valueOf?_without (h : IsArranged ps) {other : Text} (hOther : name ≠ other) :
    valueOf? name (CommandLine.without other ps) = valueOf? name ps := by
  refine Option.ext fun value => ?_
  rw [(h.without other).valueOf?_eq_some, h.valueOf?_eq_some, mem_without]
  simp [Piece.name?, hOther]

/-- A flag stays there when pieces of another name are taken out. -/
theorem flag_mem_without {other : Text} (hOther : name ≠ other) :
    .flag name ∈ without other ps ↔ .flag name ∈ ps := by
  simp [mem_without, Piece.name?, hOther]

/-- The words that the pieces without some names hold are the words of all pieces. -/
theorem wordsOf_without : wordsOf (without name ps) = wordsOf ps := by
  have hKept (p : Piece) : (if decide (p.name? ≠ some name) then p.word? else none) = p.word? := by
    by_cases hName : p.name? = some name
    · simp [Piece.word?_eq_none (Option.isSome_of_eq_some hName)]
    · simp [hName]
  rw [wordsOf, without, List.filterMap_filter]
  simp only [hKept, wordsOf]

/-- What has no name is a word. -/
theorem argsOf_eq_wordsOf (h : ∀ p ∈ ps, p.name? = none) : argsOf ps = wordsOf ps := by
  induction ps with
  | nil => rfl
  | cons p ps ih =>
    have hRest := ih fun q hq => h q (List.mem_cons_of_mem p hq)
    have hHead := h p List.mem_cons_self
    cases p with
    | word t => exact congrArg (t :: ·) hRest
    | option n value => cases hHead
    | flag n => cases hHead

/-- Without the pieces of all names only words are left. -/
theorem IsArranged.argsOf_without (h : IsArranged ps) :
    argsOf (CommandLine.without longFlag (CommandLine.without shortFlag
      (CommandLine.without storeOption (CommandLine.without configOption ps)))) = wordsOf ps := by
  rw [argsOf_eq_wordsOf]
  · simp only [wordsOf_without]
  · intro p hp
    simp only [mem_without] at hp
    obtain ⟨⟨⟨⟨hMem, hConfig⟩, hStore⟩, hShort⟩, hLong⟩ := hp
    have hGenuine := h.genuine p hMem
    cases p with
    | word t => rfl
    | option n value => simp_all [Piece.IsGenuine, optionNames]
    | flag n => simp_all [Piece.IsGenuine, flagNames]

/-! ## What the arguments ask for -/

variable {e : Environment} {working : Location} {d : Disk} {supply : Supply}

/-- What pieces mean, wherever they stand: the configuration is the one that `--config` names, the
store is the one that `--db` names or else the one of the configuration, one flag is enough, and
the words keep their order. -/
def meaning (e : Environment) (d : Disk) (working : Location) (ps : List Piece) :
    Except Report Invocation :=
  match configuration e d working (valueOf? configOption ps) with
  | .error r => .error r
  | .ok config =>
    if wordsOf ps = [] then .error (.plain usage)
    else .ok {
      storePath := (valueOf? storeOption ps).getD config.storePath
      recursive := decide (.flag shortFlag ∈ ps ∨ .flag longFlag ∈ ps)
      words := wordsOf ps }

/-- **The searches together find what the pieces mean.** -/
theorem invocation_args (h : IsArranged ps) :
    invocation e d working (argsOf ps) = meaning e d working ps := by
  have h₁ := h.without configOption
  have h₂ := h₁.without storeOption
  have h₃ := h₂.without shortFlag
  have hFile : extractOption configOption (argsOf ps) = _ := extractOption_args (by decide) h
  have hStore : extractOption storeOption _ = _ := extractOption_args (by decide) h₁
  have hShort : extractFlag shortFlag _ = _ := extractFlag_args (by decide) h₂
  have hLong : extractFlag longFlag _ = _ := extractFlag_args (by decide) h₃
  -- A search finds what it would have found before the others.
  rw [h.valueOf?_without (by decide)] at hStore
  simp (disch := decide) only [flag_mem_without] at hShort hLong
  rw [h.argsOf_without] at hLong
  cases hConfig : configuration e d working (valueOf? configOption ps) with
  | error r => simp only [invocation, meaning, hFile, hConfig]
  | ok config =>
    simp only [invocation, meaning, hFile, hConfig, hStore, hShort, hLong]
    by_cases hWords : wordsOf ps = []
    · rw [if_pos hWords, if_pos hWords]
    · rw [if_neg hWords, if_neg hWords, Bool.decide_or]

/-- What pieces mean depends only on which they are and on the order of the words. -/
theorem meaning_perm {qs : List Piece} (h : IsArranged ps) (hPerm : qs.Perm ps)
    (hWords : wordsOf qs = wordsOf ps) : meaning e d working qs = meaning e d working ps := by
  have hValue (name : Text) : valueOf? name qs = valueOf? name ps :=
    Option.ext fun value => by
      rw [(h.perm hPerm).valueOf?_eq_some, h.valueOf?_eq_some, hPerm.mem_iff]
  simp only [meaning, hValue, hWords, hPerm.mem_iff]

/-! ## The options in front -/

theorem inFront_perm (ps : List Piece) : (inFront ps).Perm ps :=
  List.filter_append_perm _ ps

/-- Without the options and flags the words are the same. -/
theorem wordsOf_nameless (ps : List Piece) :
    wordsOf (ps.filter fun p => !p.name?.isSome) = wordsOf ps := by
  have hKept (p : Piece) : (if !p.name?.isSome then p.word? else none) = p.word? := by
    cases p <;> rfl
  rw [wordsOf, List.filterMap_filter]
  simp only [hKept, wordsOf]

/-- Putting the options in front leaves the words in their order. -/
theorem wordsOf_inFront (ps : List Piece) : wordsOf (inFront ps) = wordsOf ps := by
  have hFront : wordsOf (ps.filter (·.name?.isSome)) = [] :=
    List.filterMap_eq_nil_iff.mpr fun p hp => Piece.word?_eq_none (List.mem_filter.mp hp).2
  rw [wordsOf, inFront, List.filterMap_append, ← wordsOf, ← wordsOf, hFront, wordsOf_nameless,
    List.nil_append]

/-- In front stand the options and flags, and behind them are the words alone. -/
theorem argsOf_inFront (ps : List Piece) :
    argsOf (inFront ps) = argsOf (ps.filter (·.name?.isSome)) ++ wordsOf ps := by
  have hBack : argsOf (ps.filter fun p => !p.name?.isSome) = wordsOf ps := by
    rw [argsOf_eq_wordsOf fun p hp => by simpa using (List.mem_filter.mp hp).2, wordsOf_nameless]
  rw [inFront, argsOf, List.flatMap_append, ← argsOf, ← argsOf, hBack]

/-- **Where options stand does not matter**: whatever words the options and flags stand between,
the run asks for what it asks for with them in front, which is what the pieces mean, and it does
the same. -/
theorem options_anywhere (h : IsArranged ps) :
    argsOf (inFront ps) = argsOf (ps.filter (·.name?.isSome)) ++ wordsOf ps ∧
      invocation e d working (argsOf ps) = meaning e d working ps ∧
      invocation e d working (argsOf (inFront ps)) = meaning e d working ps ∧
      run e working d supply (argsOf ps) = run e working d supply (argsOf (inFront ps)) := by
  have hAsked := @invocation_args ps e working d h
  have hFront : invocation e d working (argsOf (inFront ps)) = meaning e d working ps := by
    rw [invocation_args (h.perm (inFront_perm ps)),
      meaning_perm h (inFront_perm ps) (wordsOf_inFront ps)]
  exact ⟨argsOf_inFront ps, hAsked, hFront, by rw [run, run, hAsked, hFront]⟩

/-- Both options and both flags, between the words of a command and behind them: the store is the
one that `--db` names.  Without that option it is the one that the configuration file states. -/
theorem options_anywhere_scattered :
    let words : List Text := [['m', 'o', 'v', 'e'], ['a'], ['b']]
    let ps : List Piece := [.word ['m', 'o', 'v', 'e'], .option storeOption ['x'], .word ['a'],
      .flag longFlag, .option configOption ['c'], .word ['b'], .flag shortFlag]
    let qs : List Piece := [.word ['m', 'o', 'v', 'e'], .word ['a'], .flag longFlag,
      .option configOption ['c'], .word ['b']]
    let text : Text := "\x7b\"db_path\":\"y\"\x7d".toList
    let d : Disk := [([['c']], .document (Text.octets text))]
    let e : Environment := ⟨none, none, none⟩
    let both : List Text := [storeOption, ['x'], longFlag, configOption, ['c'], shortFlag]
    let one : List Text := [longFlag, configOption, ['c']]
    IsArranged ps ∧ IsArranged qs ∧
      (invocation e d [] (argsOf ps) = .ok ⟨['x'], true, words⟩ ∧
        invocation e d [] (both ++ words) = .ok ⟨['x'], true, words⟩ ∧
        run e [] d (.ofSeed 0) (argsOf ps) = run e [] d (.ofSeed 0) (both ++ words)) ∧
      invocation e d [] (argsOf qs) = .ok ⟨['y'], true, words⟩ ∧
        invocation e d [] (one ++ words) = .ok ⟨['y'], true, words⟩ ∧
        run e [] d (.ofSeed 0) (argsOf qs) = run e [] d (.ofSeed 0) (one ++ words) := by
  intro words ps qs text d e both one
  have hLoad : Config.load (Config.default e) d [] ['c'] = .ok ⟨['y']⟩ := by
    have hFile : d.HasDocument [] ['c'] text := ⟨[['c']], by decide +kernel, by decide +kernel⟩
    have hText : text = (⟨['y']⟩ : Config).json := by decide +kernel
    have hStated : Config.stated [(Config.storeMember, .string ['y'])] =
        (some ['y']).toList.map Json.Value.string := rfl
    exact Config.load_of_stated _ hFile (hText ▸ Config.isTextOf_json.mpr rfl) hStated
  have hConfig : configuration e d [] (some ['c']) = .ok ⟨['y']⟩ := by
    rw [configuration, hLoad]
  have hAnywhere {rs : List Piece} {front : List Text} {store : Text} (h : IsArranged rs)
      (hFront : argsOf (rs.filter (·.name?.isSome)) ++ wordsOf rs = front ++ words)
      (hMeaning : meaning e d [] rs = .ok ⟨store, true, words⟩) :
      invocation e d [] (argsOf rs) = .ok ⟨store, true, words⟩ ∧
        invocation e d [] (front ++ words) = .ok ⟨store, true, words⟩ ∧
        run e [] d (.ofSeed 0) (argsOf rs) = run e [] d (.ofSeed 0) (front ++ words) := by
    obtain ⟨hArgs, hAsked, hInFront, hRun⟩ := @options_anywhere rs e [] d (.ofSeed 0) h
    rw [hFront] at hArgs
    rw [hArgs, hMeaning] at hInFront
    rw [hArgs] at hRun
    rw [hMeaning] at hAsked
    exact ⟨hAsked, hInFront, hRun⟩
  have hScattered : IsArranged ps := by decide +kernel
  have hStated : IsArranged qs := by decide +kernel
  have hBoth : meaning e d [] ps = .ok ⟨['x'], true, words⟩ := by
    rw [meaning, show valueOf? configOption ps = some ['c'] by decide +kernel, hConfig]
    rfl
  have hOne : meaning e d [] qs = .ok ⟨['y'], true, words⟩ := by
    rw [meaning, show valueOf? configOption qs = some ['c'] by decide +kernel, hConfig]
    rfl
  exact ⟨hScattered, hStated, hAnywhere hScattered (by decide +kernel) hBoth,
    hAnywhere hStated (by decide +kernel) hOne⟩

end PathRegistry.CommandLine
