import PathRegistry.CommandLine
import PathRegistry.Proofs.Atomicity
import PathRegistry.Proofs.Handles
import PathRegistry.Proofs.Identifiers

/-!
# Runs of the command line

A run opens a store, makes one call on it and gives it up again, so that all that a run knows of
earlier ones is what lies on the disk.  `CommandLine.refines` says that nothing more is needed: the
codes of any number of runs, what they print, and the rows after each of them are those of the
same calls made through one handle that stays open.

Which call a run makes is told without the program: an option is taken out where it first stands,
with its value, a flag where it first stands, and the words that are left are those of a command.
A run whose words are not, or that names an identifier which is none, makes no call and fails.
What a call shows is told without the program too, down to the line end behind an identifier and
the quotes in the line of an entry.

## Main statements

* `CommandLine.extractOption_eq_ok`, `CommandLine.extractFlag_eq`, `CommandLine.call_eq_ok` — the
  call of a run.
* `CommandLine.finished_shows` — what a call shows.
* `CommandLine.Run.on_of_call`, `CommandLine.Run.on_of_no_call` — one run.
* `CommandLine.refines` — all of them.
-/

namespace PathRegistry

namespace CommandLine

/-! ## Which call a run makes -/

/-- An option is taken out of the arguments with its value, where it first stands. -/
inductive Takes (name : Text) : List Text → Option Text → List Text → Prop where
  | absent {args : List Text} (h : name ∉ args) : Takes name args none args
  | present {before after : List Text} {value : Text} (h : name ∉ before) :
    Takes name (before ++ name :: value :: after) (some value) (before ++ after)

/-- The words of a command and the call that it stands for. -/
inductive Asks (recursive : Bool) : List Text → Call → Prop where
  | index (path : Text) : Asks recursive ["index".toList, path] (.index path)
  | insert (path : Text) : Asks recursive ["insert".toList, path] (.insert path none)
  | insertAs {given : Text} {i : Identifier} (path : Text) (h : Identifier.ofText? given = some i) :
    Asks recursive ["insert".toList, path, given] (.insert path (some i))
  | id (path : Text) : Asks recursive ["id".toList, path] (.lookUp path)
  | path {given : Text} {i : Identifier} (h : Identifier.ofText? given = some i) :
    Asks recursive ["path".toList, given] (.locate i)
  | move (source target : Text) :
    Asks recursive ["move".toList, source, target] (.move source target recursive)
  | copy (source target : Text) :
    Asks recursive ["copy".toList, source, target] (.copy source target recursive)
  | delete (path : Text) : Asks recursive ["delete".toList, path] (.delete path recursive)
  | list : Asks recursive ["list".toList] .entries

theorem extractOption_eq_ok {name : Text} {args rest : List Text} {value : Option Text} :
    extractOption name args = .ok (value, rest) ↔ Takes name args value rest := by
  constructor
  · intro h
    induction args generalizing value rest with
    | nil =>
      cases h
      exact .absent List.not_mem_nil
    | cons a args ih =>
      unfold extractOption at h
      split at h
      · rename_i hName
        subst hName
        cases args with
        | nil => cases h
        | cons value args =>
          cases h
          exact @Takes.present _ [] _ _ List.not_mem_nil
      · rename_i hOther
        split at h
        · rename_i value' args' hRest
          cases h
          cases ih hRest with
          | absent hAbsent => exact .absent (by simp [hAbsent, Ne.symm hOther])
          | present hBefore =>
            rename_i before after value
            exact @Takes.present _ (a :: before) after value (by simp [hBefore, Ne.symm hOther])
        · cases h
  · intro h
    cases h with
    | absent hAbsent =>
      induction args with
      | nil => rfl
      | cons a args ih =>
        rw [List.mem_cons, not_or] at hAbsent
        unfold extractOption
        rw [if_neg (Ne.symm hAbsent.1), ih hAbsent.2]
    | present hBefore =>
      rename_i before after value
      induction before with
      | nil => rw [List.nil_append, extractOption, if_pos rfl, List.nil_append]
      | cons a before ih =>
        rw [List.mem_cons, not_or] at hBefore
        rw [List.cons_append]
        unfold extractOption
        rw [if_neg (Ne.symm hBefore.1), ih hBefore.2, List.cons_append]

theorem extractFlag_eq (name : Text) (args : List Text) :
    extractFlag name args = (decide (name ∈ args), args.erase name) := by
  induction args with
  | nil => rfl
  | cons a args ih =>
    unfold extractFlag
    split
    · rename_i hName
      simp [hName]
    · rename_i hOther
      rw [ih]
      simp [hOther, Ne.symm hOther]

/-- What arguments ask for: the options are taken out one after the other, then the flags. -/
theorem invocation_eq_ok {e : Environment} {d : Disk} {working : Location} {args : List Text}
    {asked : Invocation} :
    invocation e d working args = .ok asked ↔
      ∃ file config store args₁ args₂, Takes configOption args file args₁ ∧
        configuration e d working file = .ok config ∧ Takes storeOption args₁ store args₂ ∧
        (args₂.erase shortFlag).erase longFlag ≠ [] ∧
        asked = ⟨store.getD config.storePath, decide (shortFlag ∈ args₂ ∨ longFlag ∈ args₂),
          (args₂.erase shortFlag).erase longFlag⟩ := by
  have hFlags (args : List Text) : (decide (shortFlag ∈ args) || decide (longFlag ∈
      args.erase shortFlag)) = decide (shortFlag ∈ args ∨ longFlag ∈ args) := by
    have hOther : longFlag ≠ shortFlag := by decide
    simp only [List.mem_erase_of_ne hOther, Bool.decide_or]
  constructor
  · intro h
    unfold invocation at h
    split at h
    · cases h
    · rename_i file args₁ hFile
      split at h
      · cases h
      · rename_i config hConfig
        split at h
        · cases h
        · rename_i store args₂ hStore
          simp only [extractFlag_eq] at h
          split at h
          · cases h
          · rename_i hSome
            cases h
            exact ⟨file, config, store, args₁, args₂, extractOption_eq_ok.mp hFile, hConfig,
              extractOption_eq_ok.mp hStore, hSome, by rw [hFlags]⟩
  · rintro ⟨file, config, store, args₁, args₂, hFile, hConfig, hStore, hSome, rfl⟩
    simp only [invocation, extractOption_eq_ok.mpr hFile, hConfig, extractOption_eq_ok.mpr hStore,
      extractFlag_eq, if_neg hSome, hFlags]

theorem ofWord?_eq_some {word : Text} {v : Verb} : Verb.ofWord? word = some v ↔ word = v.word := by
  constructor
  · intro h
    have hFound := List.find?_some (p := fun v : Verb => v.word == word) h
    exact (beq_iff_eq.mp hFound).symm
  · rintro rfl
    cases v <;> decide

theorem except_map_eq_ok {ε α β : Type} {x : Except ε α} {f : α → β} {y : β} :
    x.map f = .ok y ↔ ∃ a, x = .ok a ∧ f a = y := by
  cases x <;> simp [Except.map]

/-- A call that names an identifier is asked for only if there is one. -/
theorem map_readId_eq_ok {given : Text} {f : Identifier → Call} {c : Call} :
    (readId given).map f = .ok c ↔ ∃ i, Identifier.ofText? given = some i ∧ f i = c := by
  rw [except_map_eq_ok, readId]
  cases Identifier.ofText? given <;> simp

/-- **The words of a command ask for its call.** -/
theorem call_eq_ok {recursive : Bool} {words : List Text} {c : Call} :
    call recursive words = .ok c ↔ Asks recursive words c := by
  constructor
  · intro h
    unfold call at h
    split at h
    · cases h
    · split at h
      case h_1 hVerb =>
        cases ofWord?_eq_some.mp hVerb
        cases h
        exact .index _
      case h_2 hVerb =>
        cases ofWord?_eq_some.mp hVerb
        cases h
        exact .insert _
      case h_3 hVerb =>
        cases ofWord?_eq_some.mp hVerb
        obtain ⟨i, hRead, rfl⟩ := map_readId_eq_ok.mp h
        exact .insertAs _ hRead
      case h_4 hVerb =>
        cases ofWord?_eq_some.mp hVerb
        cases h
        exact .id _
      case h_5 hVerb =>
        cases ofWord?_eq_some.mp hVerb
        obtain ⟨i, hRead, rfl⟩ := map_readId_eq_ok.mp h
        exact .path hRead
      case h_6 hVerb =>
        cases ofWord?_eq_some.mp hVerb
        cases h
        exact .move _ _
      case h_7 hVerb =>
        cases ofWord?_eq_some.mp hVerb
        cases h
        exact .copy _ _
      case h_8 hVerb =>
        cases ofWord?_eq_some.mp hVerb
        cases h
        exact .delete _
      case h_9 hVerb =>
        cases ofWord?_eq_some.mp hVerb
        cases h
        exact .list
      case h_10 => cases h
  · intro h
    cases h with
    | insertAs path h => exact map_readId_eq_ok.mpr ⟨_, h, rfl⟩
    | path h => exact map_readId_eq_ok.mpr ⟨_, h, rfl⟩
    | _ => rfl

/-! ## What a call shows -/

/-- The line of an entry: an object with the identifier and the path, in compact JSON. -/
def entryLine (e : Entry) : Text :=
  ['\x7b', '"', 'i', 'd', '"', ':', '"'] ++ e.id.text ++
    ['"', ',', '"', 'p', 'a', 't', 'h', '"', ':'] ++ Json.quote e.path ++ ['\x7d', '\n']

theorem listing_eq (es : List Entry) : listing es = es.flatMap entryLine := by
  have hId : Json.quote ['i', 'd'] = ['"', 'i', 'd', '"'] := by decide
  have hPath : Json.quote ['p', 'a', 't', 'h'] = ['"', 'p', 'a', 't', 'h', '"'] := by decide
  refine List.flatMap_congr fun e _ => ?_
  simp [Entry.json, Json.object, Json.members, Json.member, e.id.json_eq, entryLine, hId, hPath]

/-- The code of a run that has made a call, and what it prints: an identifier or a path on a line
of its own, or a line for each entry.  A look-up that finds nothing fails. -/
def shown : Except Failure Answer → Nat × Text
  | .ok (.id i) | .ok (.id? (some i)) => (0, i.text ++ ['\n'])
  | .ok (.path? (some path)) => (0, path ++ ['\n'])
  | .ok (.copied report) => (0, report.root.id.text ++ ['\n'])
  | .ok (.entries entries) => (0, entries.flatMap entryLine)
  | .ok (.id? none) | .ok (.path? none) | .error _ => (1, [])
  | .ok .nothing | .ok (.ids _) | .ok (.count _) => (0, [])

theorem finished_shows_answer {α : Type} {c : Call} {answer : α → Answer} (a : Action α)
    (hAction : c.action = answer <$> a)
    (hAnswer : ∀ x, ((finished c (.ok (answer x))).code, (finished c (.ok (answer x))).out) =
      shown (.ok (answer x)))
    (t : Table) (writable : Bool) (supply : Supply) :
    let result := (c.action.on t writable supply).1
    ((finished c result).code, (finished c result).out) = shown result := by
  rw [hAction, Action.map_on_fst]
  cases (a.on t writable supply).1 with
  | ok x => exact hAnswer x
  | error f => rfl

/-- **What a run shows is told by the result of its call.** -/
theorem finished_shows {recursive : Bool} {words : List Text} {c : Call}
    (h : Asks recursive words c) :
    ∀ (t : Table) (writable : Bool) (supply : Supply),
      let result := (c.action.on t writable supply).1
      ((finished c result).code, (finished c result).out) = shown result := by
  cases h with
  | index path => exact finished_shows_answer (Registry.index path) rfl fun _ => rfl
  | insert path => exact finished_shows_answer (Registry.insert path none) rfl fun _ => rfl
  | @insertAs _ i path _ =>
    exact finished_shows_answer (Registry.insert path (some i)) rfl fun _ => rfl
  | id path => exact finished_shows_answer (Registry.lookUp path) rfl fun i => by cases i <;> rfl
  | @path _ i _ =>
    exact finished_shows_answer (Registry.locate i) rfl fun path => by cases path <;> rfl
  | move source target =>
    exact finished_shows_answer (Registry.move source target recursive) rfl fun _ => rfl
  | copy source target =>
    exact finished_shows_answer (Registry.copy source target recursive) rfl fun _ => rfl
  | delete path => exact finished_shows_answer (Registry.delete path recursive) rfl fun _ => rfl
  | list =>
    exact finished_shows_answer Registry.entries rfl fun es => congrArg (Prod.mk 0) (listing_eq es)

theorem shown_cases (result : Except Failure Answer) :
    (shown result).1 = 0 ∨ shown result = (1, []) := by
  rcases result with e | answer
  · exact .inr rfl
  · rcases answer with _ | i | is | (_ | i) | (_ | path) | report | entries | n
    all_goals first | exact .inl rfl | exact .inr rfl

/-- A call that is seen to fail leaves the table, since it has failed or was a look-up. -/
theorem table_of_failed {recursive : Bool} {words : List Text} {c : Call}
    (h : Asks recursive words c) {t : Table} {writable : Bool} {supply : Supply}
    (hFailed : (shown (c.action.on t writable supply).1).1 ≠ 0) :
    (c.action.on t writable supply).2.1 = t := by
  cases hResult : (c.action.on t writable supply).1 with
  | error e => exact c.whole.table_on hResult
  | ok answer =>
    rw [hResult] at hFailed
    have hLookUp {α : Type} (statement : Table → Except Failure α) (g : α → Answer) :
        ((g <$> Action.read statement).on t writable supply).2.1 = t := by
      rw [Action.on_table]
      exact (Action.Keeps.read (P := (· = t)) statement).map g _ rfl
    cases h with
    | id path => exact hLookUp _ _
    | path _ => exact hLookUp _ _
    | _ =>
      simp only [Call.action, Action.map_on_fst] at hResult
      obtain ⟨x, -, rfl⟩ := except_map_eq_ok.mp hResult
      exact absurd rfl hFailed

/-! ## One run -/

/-- A run of the command line. -/
structure Run where
  /-- What surrounds it. -/
  environment : Environment
  /-- The directory that it is made in. -/
  working : Location
  /-- Its arguments. -/
  args : List Text

namespace Run

/-- What a run yields, and the disk and the fresh identifiers that it leaves. -/
def on (r : Run) (d : Disk) (supply : Supply) : Output × Disk × Supply :=
  run r.environment r.working d supply r.args

/-- What the arguments of a run ask for. -/
def asked (r : Run) (d : Disk) : Except Report Invocation :=
  invocation r.environment d r.working r.args

/-- The call that a run makes, if it makes one. -/
def call? (r : Run) (d : Disk) : Option Call :=
  match r.asked d with
  | .ok asked => (call asked.recursive asked.words).toOption
  | .error _ => none

/-- The call that the arguments of a run ask for: what is left behind the options and flags are the
words of its command. -/
def Asks (r : Run) (d : Disk) (c : Call) : Prop :=
  ∃ file config store args₁ args₂, Takes configOption r.args file args₁ ∧
    configuration r.environment d r.working file = .ok config ∧
    Takes storeOption args₁ store args₂ ∧
    CommandLine.Asks (decide (shortFlag ∈ args₂ ∨ longFlag ∈ args₂))
      ((args₂.erase shortFlag).erase longFlag) c

theorem call?_of_asked {r : Run} {d : Disk} {asked : Invocation} (h : r.asked d = .ok asked)
    (c : Call) : r.call? d = some c ↔ call asked.recursive asked.words = .ok c := by
  rw [call?, h]
  dsimp only
  cases call asked.recursive asked.words <;> simp [Except.toOption]

/-- **A run makes the call that its arguments ask for.** -/
theorem call?_eq_some {r : Run} {d : Disk} {c : Call} : r.call? d = some c ↔ r.Asks d c := by
  constructor
  · intro h
    cases hAsked : r.asked d with
    | error e => simp [call?, hAsked] at h
    | ok asked =>
      have hWords := call_eq_ok.mp ((call?_of_asked hAsked c).mp h)
      obtain ⟨file, config, store, args₁, args₂, hFile, hConfig, hStore, -, rfl⟩ :=
        invocation_eq_ok.mp hAsked
      exact ⟨file, config, store, args₁, args₂, hFile, hConfig, hStore, hWords⟩
  · rintro ⟨file, config, store, args₁, args₂, hFile, hConfig, hStore, hWords⟩
    have hSome : (args₂.erase shortFlag).erase longFlag ≠ [] := by
      intro hNone
      rw [hNone] at hWords
      cases hWords
    have hAsked : r.asked d = .ok _ :=
      invocation_eq_ok.mpr ⟨file, config, store, args₁, args₂, hFile, hConfig, hStore, hSome, rfl⟩
    exact (call?_of_asked hAsked c).mpr (call_eq_ok.mpr hWords)

/-- What a run has after it has opened the store that is asked for, or failed to. -/
def opened (r : Run) (d : Disk) (supply : Supply) (asked : Invocation) : Workspace :=
  ((Workspace.ofDisk d r.working supply).openStore handleName asked.storePath).2

/-- Whether what a run opens is the store at the place or out of its way. -/
def IsClear (r : Run) (d : Disk) (supply : Supply) (l : Location) : Prop :=
  ∀ asked ∈ (r.asked d).toOption, (r.opened d supply asked).IsClear l

/-- Whether a run is made against the store at the place: if it has a call to make, it can open
the store, and can write it if the others can, or the call only looks. -/
structure IsAgainst (r : Run) (d : Disk) (supply : Supply) (l : Location) (writable : Bool) :
    Prop where
  /-- It opens nothing that is in the way of the store. -/
  clear : r.IsClear d supply l
  /-- It opens the store. -/
  opens : ∀ asked ∈ (r.asked d).toOption, ∀ c ∈ r.call? d,
    ∃ h ∈ (r.opened d supply asked).handle? handleName, h.held.WillDo l writable c

instance (r : Run) (d : Disk) (supply : Supply) (l : Location) :
    Decidable (r.IsClear d supply l) :=
  inferInstanceAs (Decidable (∀ asked ∈ (r.asked d).toOption, (r.opened d supply asked).IsClear l))

instance (r : Run) (d : Disk) (supply : Supply) (l : Location) (writable : Bool) :
    Decidable (r.IsAgainst d supply l writable) :=
  decidable_of_iff
    (r.IsClear d supply l ∧ ∀ asked ∈ (r.asked d).toOption, ∀ c ∈ r.call? d,
      ∃ h ∈ (r.opened d supply asked).handle? handleName, h.held.WillDo l writable c)
    ⟨fun h => ⟨h.1, h.2⟩, fun h => ⟨h.1, h.2⟩⟩

end Run

/-! ## What one run comes to -/

theorem outcome_of_result? {c : Call} {o : Outcome} {result : Except Failure Answer}
    (h : o.result? = some result) : outcome c o = finished c result := by
  cases o <;> cases h <;> rfl

theorem outcome_cases (c : Call) (o : Outcome) :
    (outcome c o).code = 0 ∨ (outcome c o).code = 1 ∧ (outcome c o).out = [] := by
  cases o with
  | notOpen => exact .inr ⟨rfl, rfl⟩
  | failed f => exact .inr ⟨rfl, rfl⟩
  | done answer reports =>
    simp only [outcome, finished]
    split
    · exact .inl rfl
    · exact .inr ⟨rfl, rfl⟩

namespace Run

variable {r : Run} {d : Disk} {supply : Supply} {l : Location} {writable : Bool}
  {asked : Invocation} {w : Workspace}

theorem mem_asked (h : r.asked d = .ok asked) : asked ∈ (r.asked d).toOption := by
  rw [h]
  rfl

section Parts

variable (hAsked : r.asked d = .ok asked)

include hAsked

theorem on_of_refused {f : Failure}
    (hOpen : (Workspace.ofDisk d r.working supply).openStore handleName asked.storePath =
      (.error f, w)) : ∃ e, r.on d supply = (failed e, w.disk, w.supply) := by
  unfold Run.asked at hAsked
  simp only [on, run, hAsked, perform, hOpen]
  exact ⟨_, rfl⟩

variable (hOpen : (Workspace.ofDisk d r.working supply).openStore handleName asked.storePath =
  (.ok (), w))

include hOpen

theorem on_of_no_words {e : Report} (hWords : call asked.recursive asked.words = .error e) :
    r.on d supply = (failed e, (w.release handleName).disk, (w.release handleName).supply) := by
  unfold Run.asked at hAsked
  simp only [on, run, hAsked, perform, hOpen, carryOut, hWords]

theorem on_of_words {c : Call} (hWords : call asked.recursive asked.words = .ok c) :
    r.on d supply = (outcome c (w.call handleName c).1,
      ((w.call handleName c).2.release handleName).disk,
      ((w.call handleName c).2.release handleName).supply) := by
  unfold Run.asked at hAsked
  simp only [on, run, hAsked, perform, hOpen, carryOut, hWords]

end Parts

variable (hSound : d.IsSound l)

include hSound

/-- A run against the store opens it, and works on the rows that were there. -/
theorem exists_opened (hAgainst : r.IsAgainst d supply l writable) {c : Call}
    (hCall : r.call? d = some c) (hAsked : r.asked d = .ok asked) : ∃ w h logged,
      (Workspace.ofDisk d r.working supply).openStore handleName asked.storePath = (.ok (), w) ∧
        w.handle? handleName = some h ∧ h.held.WillDo l writable c ∧ w.Hosts l logged ∧
        w.disk.rows l = d.rows l ∧ w.supply = supply := by
  obtain ⟨h, hHandle, hWillDo⟩ := hAgainst.opens asked (mem_asked hAsked) c (by rw [hCall]; rfl)
  rw [opened] at hHandle
  rcases hOpen : (Workspace.ofDisk d r.working supply).openStore handleName asked.storePath
    with ⟨_ | _, w⟩
  · obtain ⟨d', -, rfl⟩ := Workspace.openStore_eq_error hOpen
    rw [hOpen] at hHandle
    cases hHandle
  · rw [hOpen] at hHandle
    obtain ⟨use, cache, hHeld⟩ := hWillDo.1.exists_file
    have hHosts := Workspace.hosts_of_opened hSound hOpen hHandle hHeld
    exact ⟨w, h, use.isLogged, rfl, hHandle, hWillDo, hHosts⟩

/-- **A run that makes a call** shows the result of the call on the rows that were there, and
leaves the rows that the call leaves. -/
theorem on_of_call (hAgainst : r.IsAgainst d supply l writable) {c : Call}
    (hCall : r.call? d = some c) :
    let left := c.action.on (d.rows l) writable supply
    ((r.on d supply).1.code, (r.on d supply).1.out) = shown left.1 ∧
      (r.on d supply).2.1.rows l = left.2.1 ∧ (r.on d supply).2.2 = left.2.2 ∧
      (r.on d supply).2.1.IsSound l := by
  cases hAsked : r.asked d with
  | error e => simp [call?, hAsked] at hCall
  | ok asked =>
    have hWords := (call?_of_asked hAsked c).mp hCall
    obtain ⟨w, h, logged, hOpen, hHandle, hWillDo, hHosts, hRows, hSupply⟩ :=
      exists_opened hSound hAgainst hCall hAsked
    obtain ⟨hResult, hRows', hSupply', hHosts'⟩ := hHosts.call_of_willDo hHandle hWillDo
    rw [hRows, hSupply] at hResult hRows' hSupply'
    obtain ⟨hSound', hLeft⟩ := Workspace.rows_release hHosts'.isSound hHosts'.isClear handleName
    rw [on_of_words hAsked hOpen hWords, outcome_of_result? hResult]
    exact ⟨finished_shows (call_eq_ok.mp hWords) _ _ _, hLeft.trans hRows',
      (Workspace.supply_release _ _).trans hSupply', hSound'⟩

variable (hClear : r.IsClear d supply l)

include hClear

theorem rows_opened (hAsked : r.asked d = .ok asked) :
    (r.opened d supply asked).disk.IsSound l ∧
      (r.opened d supply asked).disk.rows l = d.rows l ∧
      (r.opened d supply asked).supply = supply := by
  obtain ⟨hSound', hRows⟩ := Workspace.rows_openStore (w := Workspace.ofDisk d r.working supply)
    hSound nofun (hClear asked (mem_asked hAsked))
  exact ⟨hSound', hRows, Workspace.supply_openStore _ _ _⟩

/-- **A run that makes no call** fails without a word and leaves the rows that were there. -/
theorem on_of_no_call (hCall : r.call? d = none) :
    ((r.on d supply).1.code, (r.on d supply).1.out) = (1, []) ∧
      (r.on d supply).2.1.rows l = d.rows l ∧ (r.on d supply).2.2 = supply ∧
      (r.on d supply).2.1.IsSound l := by
  cases hAsked : r.asked d with
  | error e =>
    have hRun : r.on d supply = (failed e, d, supply) := by
      unfold asked at hAsked
      simp only [on, run, hAsked]
    rw [hRun]
    exact ⟨rfl, rfl, rfl, hSound⟩
  | ok asked =>
    obtain ⟨e, hWords⟩ : ∃ e, call asked.recursive asked.words = .error e := by
      cases hWords : call asked.recursive asked.words with
      | ok c => simp [(call?_of_asked hAsked c).mpr hWords] at hCall
      | error e => exact ⟨e, rfl⟩
    obtain ⟨hSound', hRows, hSupply⟩ := rows_opened hSound hClear hAsked
    have hClear' := hClear asked (mem_asked hAsked)
    rw [opened] at hSound' hRows hSupply hClear'
    rcases hOpen : (Workspace.ofDisk d r.working supply).openStore handleName asked.storePath
      with ⟨_ | _, w⟩
    · obtain ⟨e', hRun⟩ := on_of_refused hAsked hOpen
      rw [hOpen] at hSound' hRows hSupply
      rw [hRun]
      exact ⟨rfl, hRows, hSupply, hSound'⟩
    · rw [hOpen] at hSound' hRows hSupply hClear'
      obtain ⟨hSound'', hLeft⟩ := Workspace.rows_release hSound' hClear' handleName
      rw [on_of_no_words hAsked hOpen hWords]
      exact ⟨rfl, hLeft.trans hRows, (Workspace.supply_release _ _).trans hSupply, hSound''⟩

/-- A run that makes its call on another store leaves the rows. -/
theorem rows_of_elsewhere {c : Call} {h : Handle} (hAsked : r.asked d = .ok asked)
    (hOpen : (Workspace.ofDisk d r.working supply).openStore handleName asked.storePath =
      (.ok (), w))
    (hWords : call asked.recursive asked.words = .ok c) (hHandle : w.handle? handleName = some h)
    (hOn : ¬h.held.IsOn l) : (r.on d supply).2.1.rows l = d.rows l := by
  obtain ⟨hSound', hRows, -⟩ := rows_opened hSound hClear hAsked
  have hClear' := hClear asked (mem_asked hAsked)
  rw [opened, hOpen] at hSound' hRows hClear'
  obtain ⟨hSound'', hClear'', hSame⟩ := Workspace.rows_call hSound' hClear' hHandle hOn c
  have hLeft := (Workspace.rows_release hSound'' hClear'' handleName).2
  rw [on_of_words hAsked hOpen hWords]
  exact hLeft.trans (hSame.trans hRows)

/-- **A run that fails** has the code 1, prints nothing and leaves the rows that were there,
wherever it has failed. -/
theorem rows_of_failed :
    (r.on d supply).1.code = 0 ∨ (r.on d supply).1.code = 1 ∧ (r.on d supply).1.out = [] ∧
      (r.on d supply).2.1.rows l = d.rows l := by
  cases hCall : r.call? d with
  | none =>
    obtain ⟨hShown, hAfter, -⟩ := on_of_no_call hSound hClear hCall
    exact .inr ⟨congrArg Prod.fst hShown, congrArg Prod.snd hShown, hAfter⟩
  | some c =>
    cases hAsked : r.asked d with
    | error e => simp [call?, hAsked] at hCall
    | ok asked =>
      have hWords := (call?_of_asked hAsked c).mp hCall
      rcases hOpen : (Workspace.ofDisk d r.working supply).openStore handleName asked.storePath
        with ⟨_ | _, w⟩
      · obtain ⟨-, hRows, -⟩ := rows_opened hSound hClear hAsked
        obtain ⟨e, hRun⟩ := on_of_refused hAsked hOpen
        rw [opened, hOpen] at hRows
        rw [hRun]
        exact .inr ⟨rfl, rfl, hRows⟩
      · have hHeld : ∃ held, w.handle? handleName = some ⟨held, false⟩ := by
          obtain ⟨held, d', shared, -, rfl⟩ := Workspace.openStore_eq_ok hOpen
          exact ⟨held, Workspace.handle?_hold _ _ _⟩
        obtain ⟨held, hHandle⟩ := hHeld
        by_cases hOn : held.IsOn l
        · have hAgainst : r.IsAgainst d supply l held.writable := by
            refine ⟨hClear, fun asked' hMem _ _ => ?_⟩
            rw [hAsked] at hMem
            cases hMem
            rw [opened, hOpen]
            exact ⟨_, hHandle, hOn, .inl rfl⟩
          obtain ⟨hShown, hAfter, -⟩ := on_of_call hSound hAgainst hCall
          have hCode : (r.on d supply).1.code = _ := congrArg Prod.fst hShown
          have hOut : (r.on d supply).1.out = _ := congrArg Prod.snd hShown
          rw [hCode, hOut, hAfter]
          rcases shown_cases (c.action.on (d.rows l) held.writable supply).1 with hDone | hFailed
          · exact .inl hDone
          · have hNot : (shown (c.action.on (d.rows l) held.writable supply).1).1 ≠ 0 := by
              simp [hFailed]
            exact .inr ⟨by rw [hFailed], by rw [hFailed],
              table_of_failed (call_eq_ok.mp hWords) hNot⟩
        · have hRows := rows_of_elsewhere hSound hClear hAsked hOpen hWords hHandle hOn
          rw [on_of_words hAsked hOpen hWords] at hRows ⊢
          exact (outcome_cases c _).imp_right fun ⟨hCode, hOut⟩ => ⟨hCode, hOut, hRows⟩

end Run

/-! ## All runs -/

/-- What is seen of a run: the rows before it, its code, what it prints, and the rows after it. -/
structure Turn where
  /-- The rows before it. -/
  before : Table
  /-- Its code. -/
  code : Nat
  /-- What it prints. -/
  out : Text
  /-- The rows after it. -/
  after : Table
deriving DecidableEq

/-- Whether several runs are made against the store at the place, one after the other. -/
def Against (l : Location) (writable : Bool) (d : Disk) (supply : Supply) : List Run → Prop
  | [] => True
  | r :: runs => r.IsAgainst d supply l writable ∧
    Against l writable (r.on d supply).2.1 (r.on d supply).2.2 runs

instance decidableAgainst (l : Location) (writable : Bool) :
    (d : Disk) → (supply : Supply) → (runs : List Run) → Decidable (Against l writable d supply runs)
  | _, _, [] => .isTrue trivial
  | d, supply, r :: runs =>
    have := decidableAgainst l writable (r.on d supply).2.1 (r.on d supply).2.2 runs
    inferInstanceAs (Decidable (r.IsAgainst d supply l writable ∧
      Against l writable (r.on d supply).2.1 (r.on d supply).2.2 runs))

/-- What is seen of several runs, one after the other. -/
def turns (l : Location) (d : Disk) (supply : Supply) : List Run → List Turn
  | [] => []
  | r :: runs =>
    let (output, d', supply') := r.on d supply
    ⟨d.rows l, output.code, output.out, d'.rows l⟩ :: turns l d' supply' runs

/-- The calls that several runs make, one after the other. -/
def calls (d : Disk) (supply : Supply) : List Run → List (Option Call)
  | [] => []
  | r :: runs =>
    let (_, d', supply') := r.on d supply
    r.call? d :: calls d' supply' runs

/-- What is seen of calls that are made one after the other through a handle on the store at the
place.  Where there is no call, nothing is done, and that is seen as a failure. -/
def turnsThrough (handle : Text) (l : Location) (w : Workspace) : List (Option Call) → List Turn
  | [] => []
  | none :: calls =>
    ⟨w.disk.rows l, 1, [], w.disk.rows l⟩ :: turnsThrough handle l w calls
  | some c :: calls =>
    let (o, w') := w.call handle c
    let (code, out) := (o.result?.map shown).getD (1, [])
    ⟨w.disk.rows l, code, out, w'.disk.rows l⟩ :: turnsThrough handle l w' calls

variable {l : Location} {use : FileUse} {cache : Option Backend} {supply : Supply} {d : Disk}

/-- Whatever was seen of earlier runs, a handle that works on the rows that they have left shows
what further runs do. -/
theorem turns_eq {w : Workspace} {handle : Text} {runs : List Run} {h : Handle} {logged : Bool}
    (hw : w.Hosts l logged) (hHandle : w.handle? handle = some h) (hOn : h.held.IsOn l)
    (hSound : d.IsSound l) (hRows : d.rows l = w.disk.rows l) (hSupply : supply = w.supply)
    (hRuns : Against l h.held.writable d supply runs) :
    turns l d supply runs = turnsThrough handle l w (calls d supply runs) := by
  induction runs generalizing d supply w with
  | nil => rfl
  | cons r runs ih =>
    obtain ⟨hAgainst, hLater⟩ := hRuns
    subst hSupply
    cases hCall : r.call? d with
    | none =>
      obtain ⟨hShown, hAfter, hLeft, hSound'⟩ := Run.on_of_no_call hSound hAgainst.clear hCall
      obtain ⟨hCode, hOut⟩ := Prod.mk.inj hShown
      have hRest := ih hw hHandle hSound' (hAfter.trans hRows) hLeft hLater
      simp only [turns, calls, hCall, turnsThrough, hRest, hCode, hOut, hAfter, hRows]
    | some c =>
      obtain ⟨hShown, hAfter, hLeft, hSound'⟩ := Run.on_of_call hSound hAgainst hCall
      obtain ⟨hResult, hAfter', hLeft', hSame, hHosts⟩ := hw.call hHandle hOn c
      rw [hRows] at hShown hAfter hLeft
      have hKept : (w.call handle c).2.handle? handle = some h := by
        rw [← hHandle, Workspace.handle?, Workspace.handle?, hSame]
      have hRest := ih hHosts hKept hSound' (hAfter.trans hAfter'.symm)
        (hLeft.trans hLeft'.symm) hLater
      simp only [turns, calls, hCall, turnsThrough, hRest, hResult, hRows, hAfter, hAfter',
        Option.map_some, Option.getD_some, ← hShown]

/-- **The command line refines the registry.**  Runs are made one after the other against one
store, which may be there at the beginning or not.  Run by run, the code, what is printed and the
rows are those of the calls that the runs ask for, made in the same order through one handle on the
store that stays open; a run asks for a call if the words that its options and flags leave are
those of a command, and is seen to fail if it asks for none.  Whatever the reason why a run fails,
also because it cannot open the store, its code is 1, it prints nothing, and the rows are those
that were there. -/
theorem refines {working : Location} {handle name : Text} {w₁ : Workspace} {runs : List Run}
    (hSound : d.IsSound l)
    (hOpened : (Workspace.ofDisk d working supply).openStore handle name = (.ok (), w₁))
    (hHandle : w₁.handle? handle = some ⟨.file l use cache, false⟩)
    (hRuns : Against l use.writable d supply runs) :
    turns l d supply runs = turnsThrough handle l w₁ (calls d supply runs) ∧
      (∀ (r : Run) (d : Disk) (c : Call), r.call? d = some c ↔ r.Asks d c) ∧
      ∀ (r : Run) (d : Disk) (supply : Supply) (l : Location), d.IsSound l →
        r.IsClear d supply l →
        (r.on d supply).1.code = 0 ∨ (r.on d supply).1.code = 1 ∧ (r.on d supply).1.out = [] ∧
          (r.on d supply).2.1.rows l = d.rows l := by
  obtain ⟨hHosts, hRows, hSupply⟩ := Workspace.hosts_of_opened hSound hOpened hHandle rfl
  exact ⟨turns_eq hHosts hHandle rfl hSound hRows.symm hSupply.symm hRuns,
    fun _ _ _ => Run.call?_eq_some, fun _ _ _ _ hSound hClear => Run.rows_of_failed hSound hClear⟩

/-- On an empty disk: a path is indexed, and it is listed; its directory is copied with the flag
behind the arguments and the option between them; a path is looked up that is not there, an
identifier is malformed, a command is unknown; the path of a new identifier is asked for, the copy
is deleted, and the path is looked up by one who opens the store for reading only. -/
theorem refines_on_empty_disk :
    let d : Disk := [([['w']], .directory)]
    let run (args : List String) : Run :=
      ⟨⟨none, none, none⟩, [['w']], args.map String.toList⟩
    let runs := [run ["--db", "s", "index", "a/b"], run ["--db", "s", "list"],
      run ["copy", "a", "--db", "s", "c", "-r"], run ["--db", "s", "id", "b"],
      run ["--db", "s", "path", "b"], run ["--db", "s", "count"],
      run ["path", "00000000-0000-4000-8000-000000000001", "--db", "s"],
      run ["delete", "c/b", "--db", "./s"], run ["id", "A/b", "--db", "file:s?mode=ro"]]
    let w₁ := ((Workspace.ofDisk d [['w']] (.ofSeed 0)).openStore ['h'] ['s']).2
    Against [['w'], ['s']] true d (.ofSeed 0) runs ∧
      (turns [['w'], ['s']] d (.ofSeed 0) runs).map Turn.code = [0, 0, 0, 1, 1, 1, 0, 0, 0] ∧
      (turns [['w'], ['s']] d (.ofSeed 0) runs).map Turn.out =
        ["00000000-0000-4000-8000-000000000000\n",
          "\x7b\"id\":\"00000000-0000-4000-8000-000000000000\",\"path\":\"a/b\"\x7d\n",
          "00000000-0000-4000-8000-000000000003\n", "", "", "", "c/b\n", "",
          "00000000-0000-4000-8000-000000000000\n"].map String.toList ∧
      turns [['w'], ['s']] d (.ofSeed 0) runs =
        turnsThrough ['h'] [['w'], ['s']] w₁ (calls d (.ofSeed 0) runs) := by
  intro d run runs w₁
  have hRuns : Against [['w'], ['s']] true d (.ofSeed 0) runs := by decide +kernel
  have hOpened : (Workspace.ofDisk d [['w']] (.ofSeed 0)).openStore ['h'] ['s'] = (.ok (), w₁) :=
    Prod.ext (by decide +kernel) rfl
  have hHandle : w₁.handle? ['h'] =
      some ⟨.file [['w'], ['s']] (.logged true true) none, false⟩ := by decide +kernel
  have hSound : d.IsSound [['w'], ['s']] :=
    Disk.isSound_of_pending?_eq_none (by decide +kernel)
  exact ⟨hRuns, by decide +kernel, by decide +kernel, (refines hSound hOpened hHandle hRuns).1⟩

end CommandLine

end PathRegistry
