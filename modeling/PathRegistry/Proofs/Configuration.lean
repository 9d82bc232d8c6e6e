import PathRegistry.Config
import PathRegistry.Proofs.Ordering
import PathRegistry.Proofs.Skipping

/-!
# What a configuration file says

A configuration file is read for one member, and everything else in it is skipped.  So all that
matters of an object is which values its members of that name have, and these are looked up in what
the text stands for, not in the text: an escape in the name makes no difference, and a member of the
same name inside another value does not count.  If there is one such value and it is a string, the
string is the file of the store; if there is none, the default stands.

The text of a configuration is one of the texts that stand for its object, so it is read back.

## Main statements

* `Config.readMembers_of_reads` — the members of an object are read for one of them.
* `Config.load_of_stated` — a file is loaded for what its object says.
* `Config.load_exact` — what is written is loaded again, and what says nothing is the default.
-/

namespace PathRegistry

/-! ## Documents -/

/-- The encoding of a text is the text. -/
theorem Text.fromUTF8?_octets (t : Text) :
    String.fromUTF8? ⟨(octets t).toArray⟩ = some (String.ofList t) := by
  have hBytes : (⟨(octets t).toArray⟩ : ByteArray) = (String.ofList t).toByteArray := by
    apply ByteArray.ext
    rw [String.toByteArray_ofList, List.utf8Encode, List.data_toByteArray]
    rfl
  rw [hBytes, String.fromUTF8?, dif_pos (String.ofList t).isValidUTF8]
  rfl

/-- The file of a name is a document with the given text. -/
def Disk.HasDocument (d : Disk) (working : Location) (name text : Text) : Prop :=
  ∃ l, d.find working name = .ok l ∧ d.node? l = some (.document (Text.octets text))

/-- A document is read as its text. -/
theorem Disk.readText_of_hasDocument {d : Disk} {working : Location} {name text : Text}
    (h : d.HasDocument working name text) : d.readText working name = .ok text := by
  obtain ⟨l, hFind, hNode⟩ := h
  simp only [readText, hFind, hNode, Text.fromUTF8?_octets, String.toList_ofList]

namespace Json

/-- Behind blanks, a string is read to its closing quote. -/
theorem readText_of_body {s s' t content : Text} (wanted : String) (hBlanks : Blanks s ('"' :: s'))
    (hBody : Body s' content t) : ∃ r, readText wanted s = .ok (content, r) ∧ r.rest = t := by
  have hSkip := hBlanks.skip (by decide)
  obtain ⟨r, hRead, hRest⟩ := readString_of_body hBody
  refine ⟨r.below (length_lt_of_skipBlanks hSkip), ?_, hRest⟩
  unfold readText
  refine (skipBlanks_cases hSkip _ _).trans ?_
  simp only [if_true, hRead]

end Json

namespace Config

open Json

variable {s s' t u name : Text} {first : Bool} {found path : Option Text}

/-! ## Members -/

/-- Where the next member starts: at once if it is the first, else behind a comma. -/
inductive Opens : Bool → Text → Text → Prop where
  | first {s : Text} : Opens true s s
  | next {s u : Text} : Blanks s (',' :: u) → Opens false s u

/-- The name of the next member is read. -/
theorem nextName_of_named (hOpens : Opens first s u) (hQuote : Blanks u ('"' :: s'))
    (hBody : Body s' name t) : ∃ n, nextName first s = .ok (some name, n) ∧ n.rest = t := by
  have hName := hQuote.skip (by decide)
  obtain ⟨r, hRead, hRest⟩ := readString_of_body hBody
  cases hOpens with
  | first =>
    refine ⟨r.below (length_lt_of_skipBlanks hName), ?_, hRest⟩
    unfold nextName
    refine (skipBlanks_cases hName _ _).trans ?_
    dsimp only
    rw [if_neg (by decide), if_pos rfl, if_pos rfl, hRead]
  | next hComma =>
    have hNext := hComma.skip (by decide)
    refine ⟨(r.below (length_lt_of_skipBlanks hName)).below (length_lt_of_skipBlanks hNext), ?_,
      hRest⟩
    unfold nextName
    refine (skipBlanks_cases hNext _ _).trans ?_
    dsimp only
    rw [if_neg (by decide), if_neg Bool.false_ne_true, if_pos rfl]
    refine (skipBlanks_cases hName _ _).trans ?_
    rw [if_pos rfl, hRead]

/-- Behind the last member there is no name. -/
theorem nextName_of_end (h : Blanks s ('\x7d' :: t)) :
    ∃ r, nextName first s = .ok (none, r) ∧ r.rest = t := by
  have hSkip := h.skip (by decide)
  refine ⟨⟨t, length_lt_of_skipBlanks hSkip⟩, ?_, rfl⟩
  unfold nextName
  exact skipBlanks_cases hSkip _ _

/-- What is known of the file of the store after one more member: the string of the member that
names it, if it was not known before, or what was known. -/
inductive Notes : Option Text → Text × Value → Option Text → Prop where
  | store {p : Text} : Notes none (storeMember, .string p) (some p)
  | other {found : Option Text} {m : Text × Value} : m.1 ≠ storeMember → Notes found m found

/-- Where no more members follow, the reading ends with what is known. -/
theorem readMembers_of_end (h : Blanks s ('\x7d' :: t)) :
    ∃ r, readMembers found first s = .ok (found, r) ∧ r.rest = t := by
  obtain ⟨r, hName, hRest⟩ : ∃ r, nextName first s = .ok (none, r) ∧ r.rest = t :=
    nextName_of_end h
  refine ⟨r, ?_, hRest⟩
  rw [readMembers.eq_def, hName]

/-- **One member is read**, and then the others with what is known by then. -/
theorem readMembers_cons {found' : Option Text} {v : Value} {s₁ s₂ t' : Text}
    (hOpens : Opens first s u) (hName : Named u name s₁) (hBlanks : Blanks s₁ s₂)
    (hv : Reads s₂ (.value v) t') (hNotes : Notes found (name, v) found')
    (hMore : ∃ r, readMembers found' false t' = .ok (path, r) ∧ r.rest = t) :
    ∃ r, readMembers found first s = .ok (path, r) ∧ r.rest = t := by
  obtain ⟨r', hRead', hRest'⟩ := hMore
  cases hName with
  | name hQuote hBody hColon =>
    obtain ⟨⟨_, hShorter₁⟩, hNextName, rfl⟩ := nextName_of_named hOpens hQuote hBody
    obtain ⟨⟨_, hShorter₂⟩, hSkipColon, rfl⟩ := skipColon_of_blanks hColon
    rw [readMembers.eq_def, hNextName]
    cases hNotes with
    | store =>
      cases hv with
      | string hBody' =>
        obtain ⟨⟨_, hShorter₃⟩, hText, rfl⟩ := readText_of_body storeKind hBlanks hBody'
        refine ⟨(Shorter.andThen ⟨_, hShorter₁⟩
          (.andThen ⟨_, hShorter₂⟩ ⟨_, hShorter₃⟩)).andThen r', ?_, hRest'⟩
        dsimp only
        rw [if_neg (by simp)]
        simp only [hSkipColon, if_true, hText, Shorter.andThen, Shorter.below, hRead']
    | other hOther =>
      obtain ⟨⟨_, hShorter₃⟩, hSkip, rfl⟩ := skipValue_of_reads hBlanks hv
      refine ⟨(Shorter.andThen ⟨_, hShorter₁⟩ (.andThen ⟨_, hShorter₂⟩ ⟨_, hShorter₃⟩)).andThen r',
        ?_, hRest'⟩
      have hName : name ≠ storeMember := hOther
      simp only [hName, decide_false, Bool.false_and, Bool.false_eq_true, if_false, hSkipColon,
        hSkip, Shorter.andThen, Shorter.below, hRead']

/-! ## Objects -/

/-- The values that the members of an object give for the file of the store. -/
def stated (ms : List (Text × Value)) : List Value :=
  (ms.filter (·.1 = storeMember)).map (·.2)

theorem stated_eq_nil {ms : List (Text × Value)} (h : ∀ m ∈ ms, m.1 ≠ storeMember) :
    stated ms = [] := by
  rw [stated, List.map_eq_nil_iff, List.filter_eq_nil_iff]
  simpa using h

/-- If the members state at most one value and that is a string, so do those behind the first. -/
theorem exists_notes {m : Text × Value} {ms : List (Text × Value)}
    (h : found.toList.map Value.string ++ stated (m :: ms) = path.toList.map Value.string) :
    ∃ found', Notes found m found' ∧
      found'.toList.map Value.string ++ stated ms = path.toList.map Value.string := by
  obtain ⟨name, v⟩ := m
  by_cases hName : name = storeMember
  · subst hName
    have hFirst : stated ((storeMember, v) :: ms) = v :: stated ms := by simp [stated]
    rw [hFirst] at h
    cases found with
    | none =>
      cases path with
      | none => cases h
      | some p =>
        obtain ⟨rfl, hNone⟩ := List.cons.inj h
        exact ⟨some p, .store, by rw [hNone]; rfl⟩
    | some q =>
      -- a second value is one too many
      have hLength := congrArg List.length h
      cases path <;> simp at hLength
  · have hRest : stated ((name, v) :: ms) = stated ms := by simp [stated, hName]
    exact ⟨found, .other hName, hRest ▸ h⟩

/-- **The members of an object are read for one of them**, if they state at most one value for it
and that is a string.  The others are skipped, whatever their values are. -/
theorem readMembers_of_reads {ms : List (Text × Value)} (hOpens : Opens first s u)
    (h : Reads u (.members ms) t)
    (hStated : found.toList.map Value.string ++ stated ms = path.toList.map Value.string) :
    ∃ r, readMembers found first s = .ok (path, r) ∧ r.rest = t := by
  -- what is known and what the members still state is the same at every member
  induction ms generalizing found first s u with
  | nil => cases h
  | cons m ms ih =>
    obtain ⟨found', hNotes, hLeft⟩ := exists_notes hStated
    cases h with
    | lastMember hName hBlanks hv hEnd =>
      -- nothing more is stated, so what is known by now is all
      have hKnown : found'.toList.map Value.string = path.toList.map Value.string :=
        (List.append_nil _).symm.trans hLeft
      obtain rfl : found' = path := by
        cases found' <;> cases path <;> simp at hKnown
        · rfl
        · rw [hKnown]
      exact readMembers_cons hOpens hName hBlanks hv hNotes (readMembers_of_end hEnd)
    | member hName hBlanks hv hComma hMore =>
      exact readMembers_cons hOpens hName hBlanks hv hNotes (ih (.next hComma) hMore hLeft)

/-- An object is read for the value that it states. -/
theorem readBody_of_reads {ms : List (Text × Value)} (hBlanks : Blanks s u)
    (h : Reads u (.value (.object ms)) t) (hStated : stated ms = path.toList.map Value.string) :
    readBody s = .ok (path, t) := by
  have hMembers : ∃ s', u = '\x7b' :: s' ∧
      ∃ r, readMembers none true s' = .ok (path, r) ∧ r.rest = t := by
    cases h with
    | noMembers hEnd =>
      cases path with
      | none => exact ⟨_, rfl, readMembers_of_end hEnd⟩
      | some p => cases hStated
    | object hSome => exact ⟨_, rfl, readMembers_of_reads .first hSome hStated⟩
  obtain ⟨s', rfl, r, hRead, rfl⟩ := hMembers
  rw [readBody, hBlanks.skip (by decide)]
  simp only [if_neg (show '\x7b' ≠ '[' by decide), if_true, hRead]

/-! ## Files -/

/-- The configuration that gives a file of the store, or else the default. -/
def ofStated (fallback : Config) : Option Text → Config
  | some p => ⟨p⟩
  | none => fallback

/-- **A text is read for what its object states.** -/
theorem ofJson_of_stated {text : Text} {ms : List (Text × Value)} (fallback : Config)
    (h : IsTextOf text (.object ms)) (hStated : stated ms = path.toList.map Value.string) :
    ofJson fallback text = .ok (ofStated fallback path) := by
  obtain ⟨s, t, hFront, hReads, hBehind⟩ := h
  have hFinish : finish t = .ok () := by
    rw [finish, skipBlanks_of_blanks hBehind]
    rfl
  simp only [ofJson, readBody_of_reads hFront hReads hStated, hFinish]
  cases path with
  | none => rfl
  | some p => rfl

/-- **A file is loaded for what its object states.** -/
theorem load_of_stated {d : Disk} {working : Location} {file text : Text}
    {ms : List (Text × Value)} (fallback : Config) (hFile : d.HasDocument working file text)
    (h : IsTextOf text (.object ms)) (hStated : stated ms = path.toList.map Value.string) :
    load fallback d working file = .ok (ofStated fallback path) := by
  simp only [load, Disk.readText_of_hasDocument hFile, ofJson_of_stated fallback h hStated]

/-- **The text of a configuration stands for its object and for nothing else.** -/
theorem isTextOf_json {c : Config} {v : Value} :
    IsTextOf c.json v ↔ v = .object [(storeMember, .string c.storePath)] := by
  have hWritten : IsWritten c.json (.object [(storeMember, .string c.storePath)]) :=
    isWritten_object [⟨storeMember, quote c.storePath, .string c.storePath, isWritten_quote _⟩]
  exact hWritten.isTextOf_iff

/-- **What is written is loaded again, and what states nothing is the default.**  The text of a
configuration is JSON for the object of its file and for nothing else, and a file with that text is
loaded as that configuration, whatever characters the file's name has.  A file with any other JSON
object is loaded as the default if no member of the object has the name, whatever the members are
and whatever their values hold. -/
theorem load_exact (e : Environment) (d : Disk) (working : Location) (file : Text) :
    (∀ c : Config,
      (∀ v, IsTextOf c.json v ↔
        v = .object [(['d', 'b', '_', 'p', 'a', 't', 'h'], .string c.storePath)]) ∧
      (d.HasDocument working file c.json → load (default e) d working file = .ok c)) ∧
    ∀ (text : Text) (ms : List (Text × Value)), d.HasDocument working file text →
      IsTextOf text (.object ms) → (∀ m ∈ ms, m.1 ≠ ['d', 'b', '_', 'p', 'a', 't', 'h']) →
        load (default e) d working file = .ok (default e) := by
  refine ⟨fun c => ⟨fun v => isTextOf_json, fun hFile => ?_⟩, fun text ms hFile hText hOther => ?_⟩
  · have hStated : stated [(storeMember, .string c.storePath)] =
        (some c.storePath).toList.map Value.string := rfl
    exact load_of_stated _ hFile (isTextOf_json.mpr rfl) hStated
  · have hStated : stated ms = (none : Option Text).toList.map Value.string :=
      stated_eq_nil hOther
    exact load_of_stated _ hFile hText hStated

/-- A file name with a quote, a backslash, a line end and a character beyond the first plane; and a
member of the name that lies inside another value. -/
theorem load_exact_of_nested :
    let e : Environment := ⟨some ['/'], none, none⟩
    let c : Config := ⟨['"', '\\', '\n', 'é', '😀']⟩
    let text : Text := ['\x7b', '"', 'a', '"', ':', '[', '-', '1', 'e', '+', '5', ',', ' ', '\x7b',
      '"', 'd', 'b', '_', 'p', 'a', 't', 'h', '"', ':', '"', '\\', 'u', 'd', '8', '3', 'd', '\\',
      'u', 'd', 'e', '0', '0', '"', '\x7d', ']', '\x7d']
    let ms : List (Text × Value) := [(['a'], .list [.number true ⟨['1'], [], some (false, ['5'])⟩,
      .object [(storeMember, .string ['😀'])]])]
    let d : Disk := [([['c']], .document (Text.octets c.json)),
      ([['n']], .document (Text.octets text))]
    d.HasDocument [] ['c'] c.json ∧ load (default e) d [] ['c'] = .ok c ∧
      d.HasDocument [] ['n'] text ∧ IsTextOf text (.object ms) ∧
      (∀ m ∈ ms, m.1 ≠ ['d', 'b', '_', 'p', 'a', 't', 'h']) ∧
      load (default e) d [] ['n'] = .ok (default e) := by
  intro e c text ms d
  have hWritten : d.HasDocument [] ['c'] c.json := ⟨[['c']], by decide +kernel, by decide +kernel⟩
  have hNested : d.HasDocument [] ['n'] text := ⟨[['n']], by decide +kernel, by decide +kernel⟩
  have hOther : ∀ m ∈ ms, m.1 ≠ ['d', 'b', '_', 'p', 'a', 't', 'h'] := by decide
  have hDigit {c : Char} (h : c ∈ decimals) : IsDigits [c] :=
    ⟨List.cons_ne_nil c [], List.forall_mem_singleton.mpr h⟩
  have hWhole : IsWhole ['1'] := ⟨hDigit (by decide), by decide⟩
  have hExponent : IsExponent (some (false, ['5'])) ['e', '+', '5'] :=
    .plus (by decide) (hDigit (by decide))
  have hNumber (t : Text) : Reads ('-' :: '1' :: 'e' :: '+' :: '5' :: ',' :: t)
      (.value (.number true ⟨['1'], [], some (false, ['5'])⟩)) (',' :: t) := by
    have hEnds : Ends (',' :: t) := ends_cons (by decide)
    have hUnsigned := Numeric.positive (n := ⟨['1'], [], some (false, ['5'])⟩) hWhole .none
      hExponent hEnds
    exact .number (.negative hUnsigned)
  have hPair (t : Text) : Spells ('\\' :: 'u' :: 'd' :: '8' :: '3' :: 'd' :: '\\' :: 'u' :: 'd' ::
      'e' :: '0' :: '0' :: t) '😀' t := by
    have hd : Hex.value? 'd' = some 13 := by decide
    have h8 : Hex.value? '8' = some 8 := by decide
    have h3 : Hex.value? '3' = some 3 := by decide
    have he : Hex.value? 'e' = some 14 := by decide
    have h0 : Hex.value? '0' = some 0 := by decide
    have hChar : Char.ofNat (0x10000 + (13 * 4096 + 8 * 256 + 3 * 16 + 13 - 0xD800) * 1024 +
        (13 * 4096 + 14 * 256 + 0 * 16 + 0 - 0xDC00)) = '😀' := by decide
    have hTwo := Spells.pair (.digits hd h8 h3 hd) (.digits (t := t) hd he h0 h0) (by decide)
      (by decide)
    rwa [hChar] at hTwo
  have hText : IsTextOf text (.object ms) := by
    refine ⟨text, [], .none,
      .object (.lastMember (named_quote ['a'] _) .none (.list ?_) .none), .none⟩
    refine .element .none (hNumber _) .none
      (.lastElement (.one (by decide) .none) (.object ?_) .none)
    exact .lastMember (named_quote storeMember _) .none (.string (.cons (hPair _) .closed)) .none
  exact ⟨hWritten, ((load_exact e d [] ['c']).1 c).2 hWritten, hNested, hText, hOther,
    (load_exact e d [] ['n']).2 text ms hNested hText hOther⟩

end Config

end PathRegistry
