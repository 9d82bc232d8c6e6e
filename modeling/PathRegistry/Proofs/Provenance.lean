import Mathlib.Data.List.TakeWhile
import PathRegistry.Proofs.Atomicity
import PathRegistry.Proofs.Copying

/-!
# Where the paths of a table come from

No call makes a path up.  Each path of the table that a call leaves was there before, or is the
normal form of a path that the call was given, or is what a path below the source of a recursive
move or copy has been carried to.

Normal forms have no characters but separators, dots and what the lowered text has.  So a NUL
comes in with a path of a call or not at all, and tables that calls without NUL have made are free
of it.  Moving what lies below a path depends on that: the statement that rewrites stems takes a
path to end at its first NUL, while `Relocation.move` drops a stem and keeps all that is behind.

## Main statements

* `Path.mem_stem_ofText`, `Path.mem_normalize` — the characters of stems and normal forms.
* `Call.origin` — where the paths come from that a call leaves.
* `Table.Reachable.nul_free`, `Table.Reachable.takeWhile_path` — no path of a reachable table has
  a NUL, so none ends before its last character.
-/

namespace PathRegistry

open PathRegistry.Action Subtree Table

/-! ## Characters -/

namespace Path

variable {p : Path} {t n : Text} {c : Char}

theorem mem_names_enter {s : Text} (h : n ∈ (p.enter s).names) : n ∈ p.names ∨ n = s := by
  by_cases hStay : s = [] ∨ s = ['.']
  · rw [enter_stay hStay] at h
    exact .inl h
  by_cases hParent : s = ['.', '.']
  · rw [hParent, enter_parent, parent] at h
    split at h
    · cases h
    · exact .inl (List.dropLast_subset _ h)
  rw [enter_other hStay hParent] at h
  exact (List.mem_append.mp h).imp_right List.mem_singleton.mp

theorem mem_names_foldl {segments : List Text} (h : n ∈ (segments.foldl enter p).names) :
    n ∈ p.names ∨ n ∈ segments := by
  induction segments generalizing p with
  | nil => exact .inl h
  | cons s segments ih =>
    rcases ih h with hEntered | hLater
    · rcases mem_names_enter hEntered with hOld | rfl
      · exact .inl hOld
      · exact .inr List.mem_cons_self
    · exact .inr (List.mem_cons_of_mem s hLater)

/-- A stem is made of the names of its path, separators and dots. -/
theorem mem_stem (h : c ∈ p.stem) : c = '/' ∨ c = '.' ∨ ∃ n ∈ p.names, c ∈ n := by
  rw [stem_eq] at h
  obtain ⟨s, hs, hc⟩ := List.mem_flatMap.mp h
  rcases List.mem_append.mp hc with hc | hc
  · rcases List.mem_append.mp hs with hAnchor | hName
    · exact .inr (.inl (Anchor.eq_dot_of_mem_steps hAnchor hc))
    · exact .inr (.inr ⟨s, hName, hc⟩)
  · exact .inl (List.mem_singleton.mp hc)

theorem mem_stem_ofText (h : c ∈ (ofText t).stem) : c = '/' ∨ c = '.' ∨ c ∈ lower t := by
  refine (mem_stem h).imp_right (Or.imp_right ?_)
  rintro ⟨n, hn, hc⟩
  rcases mem_names_foldl hn with hStart | hSegment
  · cases hStart
  · exact (Text.mem_of_mem_pieces hSegment hc).1

/-- **A normal form** has no characters but separators, dots and those of the lowered text. -/
theorem mem_normalize (h : c ∈ normalize t) : c = '/' ∨ c = '.' ∨ c ∈ lower t := by
  rw [normalize, text] at h
  split at h
  · exact .inl (List.mem_singleton.mp h)
  · split at h
    · exact .inr (.inl (List.mem_singleton.mp h))
    · exact mem_stem_ofText (List.dropLast_subset _ h)

end Path

section Nul

variable {source : Path} {s t q : Text}

theorem nul_of_mem_lowered (h : '\x00' = '/' ∨ '\x00' = '.' ∨ '\x00' ∈ lower t) :
    '\x00' ∈ t := by
  rcases h with hSlash | hDot | hLowered
  · cases hSlash
  · cases hDot
  · exact nul_mem_lower hLowered

theorem nul_of_mem_stem (h : '\x00' ∈ (Path.ofText t).stem) : '\x00' ∈ t :=
  nul_of_mem_lowered (Path.mem_stem_ofText h)

theorem nul_of_mem_normalize (h : '\x00' ∈ normalize t) : '\x00' ∈ t :=
  nul_of_mem_lowered (Path.mem_normalize h)

/-- What is carried gets a NUL from the path or from the target. -/
theorem nul_of_mem_carry? (h : (below source).carry? s (below (.ofText t)) = some q)
    (hNul : '\x00' ∈ q) : '\x00' ∈ s ∨ '\x00' ∈ t := by
  obtain ⟨-, rest, -, rfl, rfl⟩ := carry?_eq_some.mp h
  rcases List.mem_append.mp (nul_of_mem_normalize hNul) with hStem | hRest
  · exact .inr (nul_of_mem_stem hStem)
  · exact .inl (List.mem_append_right _ hRest)

end Nul

/-! ## Origins -/

/-- Where a path comes from that a call leaves on a table. -/
inductive Call.Origin (c : Call) (t : Table) : Text → Prop
  /-- A row had it. -/
  | kept {r : Row} : r ∈ t → Origin c t r.path
  /-- The call was given it. -/
  | given {path : Text} : path ∈ c.paths → Origin c t (normalize path)
  /-- A path below the source of a recursive move or copy was carried to it. -/
  | carried {source target path : Text} {r : Row} :
      c = .move source target true ∨ c = .copy source target true → r ∈ t →
        (below (.ofText source)).carry? r.path (below (.ofText target)) = some path →
        Origin c t path

theorem Action.Keeps.insertEach {P : Text → Prop} {path : Text} (h : P path) (i : Identifier) :
    Keeps (fun t => ∀ r ∈ t, P r.path) (Action.insert i path) := by
  refine Keeps.insert fun t t' ht hInsert => ?_
  obtain ⟨-, -, rfl⟩ := Table.insert_eq_ok.mp hInsert
  intro r hr
  rcases List.mem_append.mp hr with hOld | hNew
  · exact ht r hOld
  · rw [List.mem_singleton.mp hNew]
    exact h

namespace Registry

variable {t : Table} {source target : Text} {recursive writable : Bool} {supply : Supply}
  {b' : Bench}

theorem origin_of_move (h : t.Consistent) {i : Identifier}
    (hRun : move source target recursive ⟨t, writable, supply⟩ = .ok i b') :
    ∀ r ∈ b'.table, (Call.move source target recursive).Origin t r.path := by
  have hTarget : (Call.move source target recursive).Origin t (normalize target) :=
    .given (List.mem_cons_of_mem _ List.mem_cons_self)
  have hRedirected {old path : Text}
      (hPath : (Call.move source target recursive).Origin t path) :
      (Call.move source target recursive).Origin t (Text.redirect old (normalize target) path) := by
    unfold Text.redirect
    split
    · exact hTarget
    · exact hPath
  cases recursive with
  | false =>
    rw [move, atomically_eq_ok] at hRun
    obtain ⟨added, -, hAdded, hTable⟩ := table_of_movePath h hRun
    rw [hTable]
    refine List.forall_mem_append.mpr ⟨List.forall_mem_map.mpr fun s hs => ?_, fun r hr => ?_⟩
    · exact hRedirected (.kept hs)
    · rw [hAdded r hr]
      exact hTarget
  | true =>
    obtain ⟨added, -, hAdded, hTable⟩ := table_of_move h hRun
    rw [hTable]
    refine List.forall_mem_append.mpr ⟨List.forall_mem_map.mpr fun s hs => ?_, fun r hr => ?_⟩
    · refine hRedirected ?_
      cases hCarry : (below (.ofText source)).carry? s.path (below (.ofText target)) with
      | none =>
        rw [carried_of_outside (carry?_eq_none.mp hCarry)]
        exact .kept hs
      | some path =>
        rw [carried_of_carry? hCarry]
        exact .carried (.inl rfl) hs hCarry
    · rw [hAdded r hr]
      exact hTarget

theorem origin_of_copy (h : t.Consistent) {report : CopyReport}
    (hRun : copy source target recursive ⟨t, writable, supply⟩ = .ok report b') :
    ∀ r ∈ b'.table, (Call.copy source target recursive).Origin t r.path := by
  obtain ⟨es, hRows⟩ := h.exists_originals (.ofText source) recursive
  obtain ⟨added, hTable, hPaths, -⟩ := added_of_copy h hRows hRun
  rw [hTable]
  refine List.forall_mem_append.mpr ⟨fun r hr => .kept hr, ?_⟩
  have hEach : ∀ path ∈ added.map (·.path),
      (Call.copy source target recursive).Origin t path := by
    rw [hPaths]
    refine List.forall_mem_append.mpr ⟨List.forall_mem_append.mpr ⟨?_, ?_⟩, ?_⟩
    · refine List.forall_mem_map.mpr fun s hs => ?_
      obtain ⟨rfl, hMem, hIn⟩ := mem_originals.mp hs
      exact .carried (.inr rfl) hMem (carry?_eq_some_carried hIn)
    · split
      · exact fun path hPath => by cases hPath
      · exact List.forall_mem_singleton.mpr (.given List.mem_cons_self)
    · exact List.forall_mem_singleton.mpr (.given (List.mem_cons_of_mem _ List.mem_cons_self))
  exact List.forall_mem_map.mp hEach

end Registry

/-- **Where paths come from**: each path that a call leaves, whether it ends well or not, was
there before, is one that the call was given, or was carried from below its source. -/
theorem Call.origin {t : Table} (h : t.Consistent) (c : Call) (writable : Bool)
    (supply : Supply) : ∀ r ∈ (c.action.on t writable supply).2.1, c.Origin t r.path := by
  have hKept : ∀ r ∈ t, c.Origin t r.path := fun r hr => .kept hr
  cases hResult : (c.action.on t writable supply).1 with
  | error e =>
    rw [c.whole.table_on hResult]
    exact hKept
  | ok answer =>
    obtain ⟨b', hRun⟩ := on_fst_eq_ok.mp hResult
    rw [on_table, hRun]
    have hLeft (hKeeps : Keeps (fun u => ∀ r ∈ u, c.Origin t r.path) c.action) :
        ∀ r ∈ b'.table, c.Origin t r.path := by
      have hEach := hKeeps ⟨t, writable, supply⟩ hKept
      rwa [hRun] at hEach
    cases c with
    | index path =>
      refine hLeft ((Keeps.atomically (Keeps.indexPath fun i => ?_)).map _)
      exact Keeps.insertEach (.given List.mem_cons_self) i
    | indexAll paths =>
      refine hLeft ((Keeps.atomically (Keeps.indexPaths fun p hp i => ?_)).map _)
      obtain ⟨path, hPath, rfl⟩ := List.mem_map.mp hp
      exact Keeps.insertEach (.given hPath) i
    | insert path id? =>
      refine hLeft ((Keeps.insertPath id? fun i => ?_).map _)
      exact Keeps.insertEach (.given List.mem_cons_self) i
    | move source target recursive =>
      obtain ⟨i, hRun, -⟩ := map_eq_ok.mp hRun
      exact Registry.origin_of_move h hRun
    | copy source target recursive =>
      obtain ⟨report, hRun, -⟩ := map_eq_ok.mp hRun
      exact Registry.origin_of_copy h hRun
    | delete path recursive =>
      refine hLeft ((Keeps.delete (fun u keep hu r hr => ?_) path recursive).map _)
      exact hu r (List.mem_of_mem_filter hr)
    | lookUp path => exact hLeft ((Keeps.read _).map _)
    | locate i => exact hLeft ((Keeps.read _).map _)
    | entries => exact hLeft ((Keeps.read _).map _)
    | count => exact hLeft ((Keeps.read _).map _)

/-- A path that a call without NUL leaves has none, unless some row had. -/
theorem Call.Origin.nul_free {c : Call} {t : Table} {path : Text} (h : c.Origin t path)
    (hPaths : ∀ path ∈ c.paths, '\x00' ∉ path) (hRows : ∀ r ∈ t, '\x00' ∉ r.path) :
    '\x00' ∉ path := by
  cases h with
  | kept hr => exact hRows _ hr
  | given hPath => exact fun hNul => hPaths _ hPath (nul_of_mem_normalize hNul)
  | @carried source target _ r hCall hr hCarry =>
    intro hNul
    have hTarget : target ∈ c.paths := by
      rcases hCall with rfl | rfl <;> exact List.mem_cons_of_mem _ List.mem_cons_self
    rcases nul_of_mem_carry? hCarry hNul with hRow | hGiven
    · exact hRows r hr hRow
    · exact hPaths target hTarget hGiven

/-- **No path of a reachable table has a NUL.** -/
theorem Table.Reachable.nul_free {t : Table} (h : t.Reachable) : ∀ r ∈ t, '\x00' ∉ r.path := by
  induction h with
  | empty => simp
  | call c writable supply hPaths hBefore ih =>
    intro r hr
    exact (c.origin hBefore.consistent writable supply r hr).nul_free hPaths ih

/-- What reads a path up to its first NUL reads all of it. -/
theorem Table.Reachable.takeWhile_path {t : Table} (h : t.Reachable) :
    ∀ r ∈ t, r.path.takeWhile (· != '\x00') = r.path := by
  intro r hr
  refine List.takeWhile_eq_self_iff.mpr fun c hc => bne_iff_ne.mpr ?_
  rintro rfl
  exact h.nul_free r hr hc

end PathRegistry
