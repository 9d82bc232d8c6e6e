import PathRegistry.Proofs.Consistency

/-!
# Rows in the order of their paths

`Table.byPath` lists the rows of a table in the order of their paths.  If no path
occurs twice, this order is strict, and if every row has an identifier, every row
has an entry, so that a listing is the table itself, sorted.

Texts are compared by code point.  Since UTF-8 gives a higher character an encoding
that is higher at the first octet where they differ, this is also the order of the
encodings octet by octet.

## Main statements

* `Text.isBefore_iff_octets` — the order of texts is that of their encodings.
* `byPath_ascends` — the listing ascends strictly.
* `entries_of_identified` — the listing does not fail and holds exactly the rows.
* `least_of_firstTaken?`, `firstTaken?_eq_none` — the first path that is taken is the least,
  and there is none only if no path is taken.
-/

namespace PathRegistry

namespace Text

theorem isBefore_eq_false (s t : Text) : isBefore s t = false ↔ ¬ s < t := by
  rw [← Bool.not_eq_true, isBefore_iff]

/-- Of two different texts, one comes before the other. -/
theorem isBefore_of_ne {s t : Text} (h : isBefore t s = false) (hNe : s ≠ t) :
    isBefore s t = true := by
  cases hBack : isBefore s t with
  | true => rfl
  | false =>
    rw [isBefore_eq_false] at h hBack
    exact absurd (List.le_antisymm (List.not_lt.mp h) (List.not_lt.mp hBack)) hNe

/-- A common beginning does not matter. -/
theorem isBefore_append_left (x s t : Text) : isBefore (x ++ s) (x ++ t) = isBefore s t := by
  induction x with
  | nil => rfl
  | cons c x ih => simp [isBefore, ih]

/-- The UTF-8 encoding of a text. -/
def octets (t : Text) : List UInt8 := t.flatMap String.utf8EncodeChar

/-- The encodings of two characters differ before either ends, and there the encoding of
the lower one has the lower octet. -/
private theorem encoding_lt {c d : Char} (h : c.toNat < d.toNat) (l m : List UInt8) :
    String.utf8EncodeChar c ++ l < String.utf8EncodeChar d ++ m := by
  have hTop (e : Char) : e.val.toNat < 0x110000 := by
    have hValid := e.valid
    simp only [UInt32.isValidChar, Nat.isValidChar] at hValid
    omega
  have hOctet (n : Nat) (h : n < 256) : (UInt8.ofNat n).toNat = n := UInt8.toNat_ofNat_of_lt' h
  have hDigit (n : Nat) : n / 4096 = n / 64 / 64 := by omega
  have hFirst (n : Nat) (h : n < 0x110000) : n / 262144 % 8 = n / 64 / 64 / 64 := by omega
  have hLow := hTop c
  have hHigh := hTop d
  change c.val.toNat < d.val.toNat at h
  unfold String.utf8EncodeChar
  dsimp only
  split_ifs <;>
    simp (disch := omega) only [List.cons_append, List.nil_append, List.cons_lt_cons_iff,
      UInt8.lt_iff_toNat_lt, ← UInt8.toNat_inj, hOctet, hDigit, hFirst] <;>
    omega

/-- **Code points and octets order alike**: texts compare as their encodings do. -/
theorem isBefore_iff_octets (s t : Text) : isBefore s t = true ↔ octets s < octets t := by
  induction s generalizing t with
  | nil =>
    cases t with
    | nil => simp [isBefore, octets]
    | cons d t =>
      have hSome : octets (d :: t) ≠ [] := by simp [octets]
      obtain ⟨o, rest, hOctets⟩ := List.exists_cons_of_ne_nil hSome
      rw [hOctets]
      exact iff_of_true rfl (List.nil_lt_cons _ _)
  | cons c s ih =>
    cases t with
    | nil => simp [isBefore, octets]
    | cons d t =>
      simp only [isBefore, Bool.or_eq_true, decide_eq_true_eq, Bool.and_eq_true, beq_iff_eq]
      rcases Nat.lt_trichotomy c.toNat d.toNat with hLess | hSame | hMore
      · exact iff_of_true (.inl hLess) (encoding_lt hLess _ _)
      · obtain rfl : c = d := Char.toNat_inj.mp hSame
        have hCancel : octets (c :: s) < octets (c :: t) ↔ octets s < octets t := by
          simp only [octets, List.flatMap_cons]
          induction String.utf8EncodeChar c with
          | nil => rfl
          | cons o os ih => simp [ih]
        rw [hCancel, ← ih]
        simp
      · refine iff_of_false ?_ (List.lt_asymm (encoding_lt hMore _ _))
        rintro (hLess | ⟨rfl, -⟩) <;> omega

end Text

theorem Entry.row_injective : Function.Injective Entry.row := by
  intro e f h
  obtain ⟨i, p⟩ := e
  obtain ⟨j, q⟩ := f
  have hKey : Key.ofId i = Key.ofId j := congrArg Row.key h
  have hPath : p = q := congrArg Row.path h
  rw [Key.ofId_injective hKey, hPath]

namespace Table

variable {t : Table}

theorem entriesOf_row (es : List Entry) : entriesOf (es.map Entry.row) = .ok es := by
  induction es with
  | nil => rfl
  | cons e es ih => simp [entriesOf, Row.entry, Entry.row, ih]

theorem byPath_perm (t : Table) : t.byPath.Perm t := List.mergeSort_perm t _

theorem mem_byPath {r : Row} : r ∈ t.byPath ↔ r ∈ t := (byPath_perm t).mem_iff

theorem byPath_sorted (t : Table) :
    t.byPath.Pairwise fun r s => Text.isBefore s.path r.path = false := by
  have hSorted : (t.mergeSort fun r s => !Text.isBefore s.path r.path).Pairwise
      fun r s => (!Text.isBefore s.path r.path) = true := by
    refine List.pairwise_mergeSort (fun r s u hrs hsu => ?_) (fun r s => ?_) t
    · simp only [Bool.not_eq_true', Text.isBefore_eq_false] at hrs hsu ⊢
      exact List.not_lt.mpr (List.le_trans (List.not_lt.mp hrs) (List.not_lt.mp hsu))
    · simp only [Bool.or_eq_true, Bool.not_eq_true', Text.isBefore_eq_false]
      rcases List.le_total r.path s.path with hLe | hLe
      · exact .inl (List.not_lt.mpr hLe)
      · exact .inr (List.not_lt.mpr hLe)
  refine hSorted.imp fun {r s} h => ?_
  simpa using h

/-! ## The first path that is taken -/

section Taken

variable {range : TextRange} {reroot : Text → Text}

/-- A row in the range would get the path, and some row has it. -/
def IsTakenWithin (range : TextRange) (reroot : Text → Text) (t : Table) (path : Text) : Prop :=
  t.holdsPath path = true ∧ ∃ r ∈ t.within range, reroot r.path = path

theorem firstTaken?_eq (range : TextRange) (reroot : Text → Text) (t : Table) :
    ∃ taken : Table, t.firstTaken? range reroot = (taken.map (·.path)).head? ∧
      taken.Sublist t.byPath ∧
      ∀ path, (∃ r ∈ taken, r.path = path) ↔ t.IsTakenWithin range reroot path := by
  refine ⟨_, rfl, List.filter_sublist, fun path => ?_⟩
  simp only [List.mem_filter, mem_byPath, List.any_eq_true, beq_iff_eq]
  rw [IsTakenWithin, holdsPath_iff]
  constructor
  · rintro ⟨r, ⟨hr, s, hs, hSame⟩, rfl⟩
    exact ⟨⟨r, hr, rfl⟩, s, hs, hSame⟩
  · rintro ⟨⟨r, hr, rfl⟩, s, hs, hSame⟩
    exact ⟨r, ⟨hr, s, hs, hSame⟩, rfl⟩

theorem firstTaken?_eq_none :
    t.firstTaken? range reroot = none ↔ ∀ path, ¬ t.IsTakenWithin range reroot path := by
  obtain ⟨taken, hFirst, -, hMem⟩ := firstTaken?_eq range reroot t
  simp only [hFirst, ← hMem]
  cases taken with
  | nil => simp
  | cons r rest =>
    refine iff_of_false (by simp) fun hNone => ?_
    exact hNone r.path ⟨r, List.mem_cons_self, rfl⟩

/-- **The first path that is taken** is the least of them, octet by octet. -/
theorem least_of_firstTaken? {q : Text} (h : t.firstTaken? range reroot = some q) :
    t.IsTakenWithin range reroot q ∧
      ∀ q', t.IsTakenWithin range reroot q' → q' = q ∨ Text.octets q < Text.octets q' := by
  obtain ⟨taken, hFirst, hSublist, hMem⟩ := firstTaken?_eq range reroot t
  have hSorted := (byPath_sorted t).sublist hSublist
  rw [hFirst] at h
  cases taken with
  | nil => cases h
  | cons r rest =>
    obtain rfl : r.path = q := Option.some.inj h
    refine ⟨(hMem r.path).mp ⟨r, List.mem_cons_self, rfl⟩, fun q' hTaken => ?_⟩
    obtain ⟨s, hs, rfl⟩ := (hMem q').mpr hTaken
    rcases List.mem_cons.mp hs with rfl | hLater
    · exact .inl rfl
    · refine or_iff_not_imp_left.mpr fun hOther => (Text.isBefore_iff_octets _ _).mp ?_
      exact Text.isBefore_of_ne ((List.pairwise_cons.mp hSorted).1 s hLater) (Ne.symm hOther)

end Taken

/-! ## All rows -/

/-- **The order of the paths is strict** if no path occurs twice. -/
theorem byPath_ascends (hPaths : (t.map (·.path)).Nodup) :
    t.byPath.Pairwise fun r s => Text.isBefore r.path s.path = true := by
  have hNodup : (t.byPath.map (·.path)).Nodup := ((byPath_perm t).map _).nodup_iff.mpr hPaths
  refine ((byPath_sorted t).and (List.pairwise_map.mp hNodup)).imp fun {r s} hBoth => ?_
  exact Text.isBefore_of_ne hBoth.1 hBoth.2

theorem exists_entries_of_identified (hKeys : ∀ r ∈ t, ∃ i, r.key = Key.ofId i) :
    ∃ es : List Entry, t.byPath = es.map Entry.row := by
  have hAll : ∀ r ∈ t.byPath, ∃ e : Entry, e.row = r := by
    intro r hr
    obtain ⟨i, hKey⟩ := hKeys r (mem_byPath.mp hr)
    exact ⟨⟨i, r.path⟩, by rw [Entry.row, ← hKey]⟩
  generalize t.byPath = rows at hAll
  induction rows with
  | nil => exact ⟨[], rfl⟩
  | cons r rows ih =>
    obtain ⟨e, he⟩ := hAll r List.mem_cons_self
    obtain ⟨es, hes⟩ := ih fun s hs => hAll s (List.mem_cons_of_mem r hs)
    exact ⟨e :: es, by rw [List.map_cons, he, hes]⟩

/-- **The listing does not fail** if every row has an identifier: its entries are the rows, in the
order of their paths. -/
theorem entries_of_identified (hKeys : ∀ r ∈ t, ∃ i, r.key = Key.ofId i) :
    ∃ es : List Entry, t.entries = .ok es ∧ t.byPath = es.map Entry.row := by
  obtain ⟨es, hes⟩ := exists_entries_of_identified hKeys
  exact ⟨es, by rw [entries, hes, entriesOf_row], hes⟩

namespace Consistent

/-- The order of the paths is strict on a consistent table. -/
theorem byPath_pairwise (h : t.Consistent) :
    t.byPath.Pairwise fun r s => Text.isBefore r.path s.path = true :=
  byPath_ascends h.paths_nodup

theorem exists_entries (h : t.Consistent) : ∃ es : List Entry, t.byPath = es.map Entry.row :=
  exists_entries_of_identified h.identified

/-- The listing of a consistent table does not fail. -/
theorem entries_ok (h : t.Consistent) :
    ∃ es : List Entry, t.entries = .ok es ∧ t.byPath = es.map Entry.row :=
  entries_of_identified h.identified

end Consistent

end Table

end PathRegistry
