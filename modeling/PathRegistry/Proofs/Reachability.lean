import PathRegistry.Proofs.Ordering
import PathRegistry.Proofs.Retargeting
import PathRegistry.Proofs.Run

/-!
# Reachable tables

`Table.Reachable` holds of every table that calls can make of the empty one, in
any number and order, with any paths without NUL, ending well or not, and whatever
identifiers the supply yields.  A path with a NUL in it would be cut there by the
statement that rewrites stems.

Every call keeps a table consistent, so every reachable table is.  The calls
write normal paths only; the one place where this is not plain to see is the
recursive move, which rewrites stems without normalizing again, and there it is
what `Subtree.carry?_eq_append` says.

Apart from moves, the calls add rows or select some.  So they keep any property
that the rows they add leave intact, and that selecting rows does.

## Main statements

* `Action.Keeps.copy`, `Action.Keeps.delete` — what such calls keep.
* `Call.keeps_consistent` — every call keeps a table consistent.
* `Table.Reachable.look_ups_inverse` — on a reachable table, looking paths up and
  looking identifiers up are each other's inverse, and the listing is their graph.
-/

namespace PathRegistry

open PathRegistry.Action Table

/-! ## What the calls keep -/

section Keeping

variable {P : Table → Prop}

theorem Action.Keeps.insertAll {es : List Entry}
    (h : ∀ e ∈ es, Keeps P (Action.insert e.id e.path)) : Keeps P (Relocation.insertAll es) := by
  induction es with
  | nil => exact Keeps.pure ()
  | cons e es ih =>
    have hRest := ih fun f hf => h f (List.mem_cons_of_mem e hf)
    exact Keeps.bind (h e List.mem_cons_self) fun _ _ => hRest

theorem Action.Keeps.prepareCopies (s target : Subtree) (es : List Entry) :
    Keeps P (Relocation.prepareCopies s target es) := by
  induction es with
  | nil => exact Keeps.pure []
  | cons e es ih =>
    rw [Relocation.prepareCopies]
    split
    · exact Keeps.bind Keeps.fresh fun _ _ => Keeps.bind ih fun _ _ => Keeps.pure _
    · exact ih

/-- The copies of what lies below a path get normal paths. -/
theorem Relocation.normalize_of_prepareCopies {source target : Path} {es : List Entry}
    {copies : List CopiedEntry} {b b' : Bench}
    (h : prepareCopies (.below source) (.below target) es b = .ok copies b') :
    ∀ c ∈ copies, normalize c.path = c.path := by
  induction es generalizing copies b b' with
  | nil =>
    obtain ⟨rfl, -⟩ := pure_eq_ok.mp h
    simp
  | cons e es ih =>
    rw [prepareCopies] at h
    cases hCarry : (Subtree.below source).carry? e.path (.below target) with
    | none =>
      rw [hCarry] at h
      exact ih h
    | some path =>
      rw [hCarry] at h
      obtain ⟨i, b₁, -, h⟩ := bind_eq_ok.mp h
      obtain ⟨rest, b₂, hRest, h⟩ := bind_eq_ok.mp h
      obtain ⟨rfl, -⟩ := pure_eq_ok.mp h
      intro c hc
      rcases List.mem_cons.mp hc with rfl | hc
      · exact Subtree.normalize_of_carry? hCarry
      · exact ih hRest c hc

theorem Action.Keeps.indexPath {p : Path} (h : ∀ i, Keeps P (Action.insert i p.text)) :
    Keeps P (Registry.indexPath p) := by
  refine Keeps.bind (Keeps.read _) fun i? _ => ?_
  cases i? with
  | some i => exact Keeps.pure i
  | none => exact Keeps.bind Keeps.fresh fun i _ => Keeps.bind (h i) fun _ _ => Keeps.pure i

theorem Action.Keeps.indexPaths {ps : List Path}
    (h : ∀ p ∈ ps, ∀ i, Keeps P (Action.insert i p.text)) : Keeps P (Registry.indexPaths ps) := by
  induction ps with
  | nil => exact Keeps.pure []
  | cons p ps ih =>
    have hRest := ih fun q hq => h q (List.mem_cons_of_mem p hq)
    exact Keeps.bind (Keeps.indexPath (h p List.mem_cons_self)) fun _ _ =>
      Keeps.bind hRest fun _ _ => Keeps.pure _

theorem Action.Keeps.insertPath {path : Text} (id? : Option Identifier)
    (h : ∀ i, Keeps P (Action.insert i (normalize path))) :
    Keeps P (Registry.insert path id?) := by
  apply Keeps.atomically
  cases id? with
  | some i =>
    exact Keeps.bind (Keeps.pure i) fun i _ => Keeps.bind (h i) fun _ _ => Keeps.pure i
  | none => exact Keeps.bind Keeps.fresh fun i _ => Keeps.bind (h i) fun _ _ => Keeps.pure i

section Copies

variable (h : ∀ i path, normalize path = path → Keeps P (Action.insert i path))

include h

theorem Action.Keeps.copyBelow (source target : Path) :
    Keeps P (Relocation.copy source target) := by
  unfold Relocation.copy
  dsimp only
  split
  · exact Keeps.pure []
  · refine Keeps.bind (Keeps.read _) fun es _ =>
      Keeps.bind (Keeps.prepareCopies _ _ es) fun copies hCopies =>
        Keeps.bind (Keeps.insertAll fun e he => h e.id e.path ?_) fun _ _ => Keeps.pure _
    obtain ⟨b, b', hRun⟩ := hCopies
    obtain ⟨c, hc, rfl⟩ := List.mem_map.mp he
    exact Relocation.normalize_of_prepareCopies hRun c hc

/-- All rows that a copy adds have normal paths. -/
theorem Action.Keeps.copy (source target : Text) (recursive : Bool) :
    Keeps P (Registry.copy source target recursive) := by
  apply Keeps.atomically
  have hNormal (text : Text) := Path.normalize_text (Path.ofText_isNormal text)
  have hRest (descendants : List CopiedEntry) : Keeps P (do
      let sourceId ← Registry.indexPath (Path.ofText source)
      let i ← Action.fresh
      Action.insert i (Path.ofText target).text
      return (⟨⟨sourceId, i, (Path.ofText target).text⟩, descendants⟩ : CopyReport)) :=
    Keeps.bind (Keeps.indexPath fun i => h i _ (hNormal source)) fun _ _ =>
      Keeps.bind Keeps.fresh fun i _ =>
        Keeps.bind (h i _ (hNormal target)) fun _ _ => Keeps.pure _
  cases recursive with
  | true => exact Keeps.bind (Keeps.copyBelow h _ _) fun ds _ => hRest ds
  | false => exact Keeps.bind (Keeps.pure []) fun ds _ => hRest ds

end Copies

section Deletions

variable (h : ∀ t keep, P t → P (List.filter keep t))

include h

theorem Action.Keeps.deleteBelow (root : Path) : Keeps P (Relocation.delete root) := by
  unfold Relocation.delete
  dsimp only
  split
  · exact Keeps.pure 0
  · refine Keeps.write fun t n t' hKept hRun => ?_
    cases hRun
    exact h t _ hKept

/-- A delete selects rows. -/
theorem Action.Keeps.delete (path : Text) (recursive : Bool) :
    Keeps P (Registry.delete path recursive) := by
  apply Keeps.atomically
  have hErase (text : Text) : Keeps P
      (Functor.discard (Action.write fun t => .ok (t.eraseAt text))) := by
    refine (Keeps.write fun t n t' hKept hRun => ?_).discard
    cases hRun
    exact h t _ hKept
  cases recursive with
  | true => exact Keeps.bind (Keeps.deleteBelow h _).discard fun _ _ => hErase _
  | false => exact hErase _

end Deletions

end Keeping

/-! ## Consistency -/

theorem Action.keeps_insert {path : Text} (hNormal : normalize path = path) (i : Identifier) :
    Keeps Consistent (Action.insert i path) :=
  Keeps.insert fun _ _ ht hInsert => ht.insert hNormal hInsert

theorem Action.keeps_repoint {path : Text} (hNormal : normalize path = path) (i : Identifier) :
    Keeps Consistent (Action.write fun t => t.repoint i path) :=
  Keeps.write fun _ _ _ ht hRun => ht.repoint hNormal hRun

namespace Relocation

variable {source target : Path}

theorem keeps_repointAll (source target : Path) (es : List Entry) :
    Keeps Consistent (repointAll (.below source) (.below target) es) := by
  induction es with
  | nil => exact Keeps.pure ()
  | cons e es ih =>
    rw [repointAll]
    split
    · rename_i path hCarry
      exact Keeps.bind (keeps_repoint (Subtree.normalize_of_carry? hCarry) e.id).discard
        fun _ _ => ih
    · exact Keeps.bind (Keeps.pure ()) fun _ _ => ih

theorem keeps_move (hs : source.IsNormal) (ht : target.IsNormal) :
    Keeps Consistent (move source target) := by
  unfold move
  dsimp only
  split
  · exact Keeps.pure 0
  · split
    · exact Keeps.bind (Keeps.read _) fun es _ =>
        Keeps.bind (keeps_repointAll source target es) fun _ _ => Keeps.pure _
    · rename_i hClimbs
      rw [Bool.not_eq_true] at hClimbs
      refine Keeps.write fun t n t' hCons hRun => ?_
      obtain ⟨-, rfl, hNodup, -⟩ := (rerootWithin_eq_ok hCons hs ht hClimbs).mp hRun
      exact hCons.carry hNodup

theorem keeps_insertAll {es : List Entry} (h : ∀ e ∈ es, normalize e.path = e.path) :
    Keeps Consistent (insertAll es) :=
  Keeps.insertAll fun e he => keeps_insert (h e he) e.id

theorem keeps_copy (source target : Path) : Keeps Consistent (copy source target) :=
  Keeps.copyBelow (fun i _ hNormal => keeps_insert hNormal i) source target

theorem keeps_delete (root : Path) : Keeps Consistent (delete root) :=
  Keeps.deleteBelow (fun _ keep hCons => hCons.filter keep) root

end Relocation

namespace Registry

variable {p source target : Path}

theorem keeps_indexPath (hp : p.IsNormal) : Keeps Consistent (indexPath p) :=
  Keeps.indexPath fun i => Action.keeps_insert (Path.normalize_text hp) i

theorem keeps_indexPaths {ps : List Path} (hps : ∀ p ∈ ps, p.IsNormal) :
    Keeps Consistent (indexPaths ps) :=
  Keeps.indexPaths fun p hp i => Action.keeps_insert (Path.normalize_text (hps p hp)) i

theorem keeps_movePath (ht : target.IsNormal) : Keeps Consistent (movePath source target) := by
  refine Keeps.bind (Keeps.read _) fun i? _ => ?_
  cases i? with
  | some i =>
    exact Keeps.bind (keeps_repoint (Path.normalize_text ht) i).discard fun _ _ => Keeps.pure i
  | none => exact keeps_indexPath ht

theorem keeps_move (source target : Text) (recursive : Bool) :
    Keeps Consistent (move source target recursive) := by
  apply Keeps.atomically
  have hs := Path.ofText_isNormal source
  have ht := Path.ofText_isNormal target
  cases recursive with
  | true => exact Keeps.bind (Relocation.keeps_move hs ht).discard fun _ _ => keeps_movePath ht
  | false => exact keeps_movePath ht

theorem keeps_copy (source target : Text) (recursive : Bool) :
    Keeps Consistent (copy source target recursive) :=
  Keeps.copy (fun i _ hNormal => Action.keeps_insert hNormal i) source target recursive

end Registry

/-- **Every call keeps a table consistent**, whether it ends well or not. -/
theorem Call.keeps_consistent (c : Call) : Keeps Consistent c.action := by
  cases c with
  | index path =>
    exact (Keeps.atomically (Registry.keeps_indexPath (Path.ofText_isNormal path))).map _
  | indexAll paths =>
    refine (Keeps.atomically (Registry.keeps_indexPaths fun p hp => ?_)).map _
    obtain ⟨text, -, rfl⟩ := List.mem_map.mp hp
    exact Path.ofText_isNormal text
  | insert path id? =>
    exact (Keeps.insertPath id? fun i => keeps_insert (normalize_normalize path) i).map _
  | lookUp path => exact (Keeps.read _).map _
  | locate i => exact (Keeps.read _).map _
  | move source target recursive => exact (Registry.keeps_move source target recursive).map _
  | copy source target recursive => exact (Registry.keeps_copy source target recursive).map _
  | delete path recursive =>
    exact (Keeps.delete (fun _ keep hCons => hCons.filter keep) path recursive).map _
  | entries => exact (Keeps.read _).map _
  | count => exact (Keeps.read _).map _

theorem Call.consistent_on {t : Table} (h : t.Consistent) (c : Call) (writable : Bool)
    (supply : Supply) : (c.action.on t writable supply).2.1.Consistent := by
  rw [on_table]
  exact c.keeps_consistent _ h

/-- The paths that a call is given. -/
def Call.paths : Call → List Text
  | .index path => [path]
  | .indexAll paths => paths
  | .insert path _ => [path]
  | .lookUp path => [path]
  | .move source target _ => [source, target]
  | .copy source target _ => [source, target]
  | .delete path _ => [path]
  | .locate _ | .entries | .count => []

/-- What calls make of an empty table, in any number and order, whether they end well
or not.  The paths that they are given have no NUL. -/
inductive Table.Reachable : Table → Prop
  | empty : Reachable []
  | call {t : Table} (c : Call) (writable : Bool) (supply : Supply) :
      (∀ path ∈ c.paths, '\x00' ∉ path) → Reachable t →
        Reachable (c.action.on t writable supply).2.1

namespace Table.Reachable

variable {t : Table}

/-- **Every reachable table is consistent.** -/
theorem consistent (h : t.Reachable) : t.Consistent := by
  induction h with
  | empty => exact Consistent.nil
  | call c writable supply _ _ ih => exact c.consistent_on ih writable supply

/-- **Paths and identifiers of a reachable table are in one-to-one correspondence**:
the paths are normal, neither a path nor an identifier occurs twice, the two look-ups
are each other's inverse, and the listing is their graph in the order of the octets of
the paths. -/
theorem look_ups_inverse (h : t.Reachable) (writable : Bool) (supply : Supply) :
    (∀ r ∈ t, normalize r.path = r.path ∧ ∃ i, r.key = Key.ofId i) ∧
      (t.map (·.path)).Nodup ∧ (t.map (·.key)).Nodup ∧
      (∀ i path, ((Registry.locate i).on t writable supply).1 = .ok (some path) →
        ((Registry.lookUp path).on t writable supply).1 = .ok (some i)) ∧
      (∀ text i, ((Registry.lookUp text).on t writable supply).1 = .ok (some i) →
        ((Registry.locate i).on t writable supply).1 = .ok (some (normalize text))) ∧
      ∃ es, (Registry.entries.on t writable supply).1 = .ok es ∧
        (es.Pairwise fun e f => Text.octets e.path < Text.octets f.path) ∧
        ∀ i path, ⟨i, path⟩ ∈ es ↔
          ((Registry.locate i).on t writable supply).1 = .ok (some path) := by
  have hCons := h.consistent
  have hLocate (i : Identifier) (path : Text) :
      ((Registry.locate i).on t writable supply).1 = .ok (some path) ↔
        ⟨Key.ofId i, path⟩ ∈ t := by
    rw [Registry.locate, read_on, Except.ok.injEq, hCons.pathOf?_eq_some]
  have hLookUp (text : Text) (i : Identifier) :
      ((Registry.lookUp text).on t writable supply).1 = .ok (some i) ↔
        ⟨Key.ofId i, normalize text⟩ ∈ t := by
    rw [Registry.lookUp, read_on, hCons.idAt_eq_some]
  refine ⟨fun r hr => ⟨hCons.normal r hr, hCons.identified r hr⟩, hCons.paths_nodup,
    hCons.keys_nodup, fun i path hPath => ?_, fun text i hId => ?_, ?_⟩
  · rw [hLocate] at hPath
    rw [hLookUp, hCons.normal _ hPath]
    exact hPath
  · rw [hLookUp] at hId
    rwa [hLocate]
  · obtain ⟨es, hEntries, hRows⟩ := hCons.entries_ok
    refine ⟨es, by rw [Registry.entries, read_on, hEntries], ?_, fun i path => ?_⟩
    · have hSorted := hCons.byPath_pairwise
      rw [hRows, List.pairwise_map] at hSorted
      exact hSorted.imp fun {e f} hBefore => (Text.isBefore_iff_octets _ _).mp hBefore
    · rw [hLocate, ← mem_byPath, hRows]
      exact (List.mem_map_of_injective Entry.row_injective).symm

/-- A directory moved to the current one: what lay below it is found again. -/
theorem look_ups_inverse_of_moved :
    let t : Table := ((Call.move ['a', '/', 'b'] ['.'] true).action.on
      ((Call.index ['a', '/', 'b', '/', 'x']).action.on [] true (.ofSeed 0)).2.1
      true (.ofSeed 1)).2.1
    t.Reachable ∧
      ((Registry.locate ((Supply.ofSeed 0).draw 0)).on t true (.ofSeed 2)).1 = .ok (some ['x']) ∧
      ((Registry.lookUp ['x']).on t true (.ofSeed 2)).1 = .ok (some ((Supply.ofSeed 0).draw 0)) := by
  intro t
  have hReachable : t.Reachable := .call _ _ _ (by decide) (.call _ _ _ (by decide) .empty)
  have hPath : ((Registry.locate ((Supply.ofSeed 0).draw 0)).on t true (.ofSeed 2)).1 =
      .ok (some ['x']) := by
    decide +kernel
  obtain ⟨-, -, -, hInverse, -⟩ := hReachable.look_ups_inverse true (.ofSeed 2)
  exact ⟨hReachable, hPath, hInverse _ _ hPath⟩

end Table.Reachable

end PathRegistry
