import PathRegistry.Position
import PathRegistry.Proofs.Ordering
import PathRegistry.Proofs.Retargeting
import PathRegistry.Proofs.Run

/-!
# Rewriting the paths of a range

One statement gives every row of a range a new path, made of a new beginning and what the old path
has behind a number of characters.  It takes the rows in the order of their creation, and each
must not get a path that another row has at that moment: a row outside the range, one that was
rewritten before, or one that will be rewritten later and still has its old path.

`Table.Rewritable` says that nothing of this happens, in terms of the old paths and the new ones
only.  If so, the statement amounts to giving all rows their new paths at once.  New paths that lie
in the range again make no difference, since each row is visited once.  If not, nothing is changed,
and the failure names the least new path that some row has; it names the new beginning if there is
none, which can be so if two rows get one path.

What is behind a number of characters is found by position, and positions are kept as 32 bits with
a sign.  As long as the number fits, the new path has the old one without these characters.  Behind
more characters than fit, the position counts from the end of the path: behind 4294967294
characters it is -1, and the last character of every path is kept.

## Main statements

* `rewritable_iff` — visited in order, the rows end as if they had been rewritten all at once.
* `rerootWithin_of_not_rewritable` — the path that a failure names.
* `rerootWithin_exact` — success, result and failure of the statement.
* `not_always_dropped` — the characters are not always dropped.
-/

namespace PathRegistry

open PathRegistry.Action

namespace Table

variable {t t' : Table} {range : TextRange} {reroot : Text → Text}

/-- The rows of the range can be given their new paths one after the other. -/
structure Rewritable (range : TextRange) (reroot : Text → Text) (t : Table) : Prop where
  /-- No new path is that of a row outside the range. -/
  outside : ∀ r ∈ t.within range, ∀ s ∈ t, range.contains s.path = false →
    reroot r.path ≠ s.path
  /-- No new path is the new path of an earlier row, or the old path of a later one. -/
  inside : (t.within range).Pairwise fun r s =>
    reroot s.path ≠ reroot r.path ∧ reroot r.path ≠ s.path

instance (range : TextRange) (reroot : Text → Text) (t : Table) :
    Decidable (t.Rewritable range reroot) :=
  decidable_of_iff (_ ∧ _) ⟨fun h => ⟨h.1, h.2⟩, fun h => ⟨h.outside, h.inside⟩⟩

/-- The new path of a path in the range; there is none for any other path. -/
def assigned? (range : TextRange) (reroot : Text → Text) (path : Text) : Option Text :=
  if range.contains path then some (reroot path) else none

/-- The path that a row has in the end: the new one if it is in the range, else the old one. -/
def rewritten (range : TextRange) (reroot : Text → Text) (path : Text) : Text :=
  if range.contains path then reroot path else path

theorem rewritten_of_mem {path : Text} (h : range.contains path = true) :
    rewritten range reroot path = reroot path := if_pos h

theorem rewritten_of_outside {path : Text} (h : range.contains path = false) :
    rewritten range reroot path = path :=
  if_neg (Bool.eq_false_iff.mp h)

theorem sent_assigned? : sent (assigned? range reroot) = rewritten range reroot := by
  funext path
  unfold sent assigned? rewritten
  cases range.contains path <;> rfl

theorem assigned?_eq_some {path q : Text} :
    assigned? range reroot path = some q ↔ range.contains path = true ∧ reroot path = q := by
  simp [assigned?]

theorem mem_within_range {r : Row} :
    r ∈ t.within range ↔ r ∈ t ∧ range.contains r.path = true := List.mem_filter

/-- Rows that can be rewritten have distinct paths afterwards. -/
theorem Rewritable.nodup (w : t.Rewritable range reroot) (hNodup : (t.map (·.path)).Nodup) :
    ((t.relocate (rewritten range reroot)).map (·.path)).Nodup := by
  have hInside := w.inside
  rw [within, List.pairwise_filter] at hInside
  rw [relocate_paths]
  refine List.pairwise_map.mpr
    (((List.pairwise_map.mp hNodup).and hInside).imp_of_mem fun {r s} hr hs hBoth => ?_)
  obtain ⟨hOld, hNew⟩ := hBoth
  cases hInR : range.contains r.path <;> cases hInS : range.contains s.path
  · rw [rewritten_of_outside hInR, rewritten_of_outside hInS]
    exact hOld
  · rw [rewritten_of_outside hInR, rewritten_of_mem hInS]
    exact (w.outside s (mem_within_range.mpr ⟨hs, hInS⟩) r hr hInR).symm
  · rw [rewritten_of_mem hInR, rewritten_of_outside hInS]
    exact w.outside r (mem_within_range.mpr ⟨hr, hInR⟩) s hs hInS
  · rw [rewritten_of_mem hInR, rewritten_of_mem hInS]
    exact (hNew hInR hInS).1.symm

/-- Rows can be rewritten exactly if their paths are distinct afterwards and none is sent to the
path of a later row. -/
theorem rewritable_iff (hNodup : (t.map (·.path)).Nodup) :
    t.Rewritable range reroot ↔
      ((t.relocate (rewritten range reroot)).map (·.path)).Nodup ∧
        t.Pairwise fun r s => assigned? range reroot r.path ≠ some s.path := by
  constructor
  · intro w
    have hInside := w.inside
    rw [within, List.pairwise_filter] at hInside
    refine ⟨w.nodup hNodup, hInside.imp_of_mem fun {r s} hr hs hApart hSent => ?_⟩
    obtain ⟨hInR, hSent⟩ := assigned?_eq_some.mp hSent
    cases hInS : range.contains s.path with
    | true => exact (hApart hInR hInS).2 hSent
    | false => exact w.outside r (mem_within_range.mpr ⟨hr, hInR⟩) s hs hInS hSent
  · rintro ⟨hDistinct, hLater⟩
    rw [relocate_paths] at hDistinct
    refine ⟨fun r hr s hs hOut hMeet => ?_, ?_⟩
    · obtain ⟨hr, hIn⟩ := mem_within_range.mp hr
      have hSame : r = s := by
        apply List.inj_on_of_nodup_map hDistinct hr hs
        rw [rewritten_of_mem hIn, rewritten_of_outside hOut, hMeet]
      rw [hSame, hOut] at hIn
      cases hIn
    · rw [within, List.pairwise_filter]
      refine ((List.pairwise_map.mp hDistinct).and hLater).imp fun {r s} hBoth hInR hInS => ?_
      obtain ⟨hNew, hOld⟩ := hBoth
      rw [rewritten_of_mem hInR, rewritten_of_mem hInS] at hNew
      exact ⟨hNew.symm, fun hSent => hOld (assigned?_eq_some.mpr ⟨hInR, hSent⟩)⟩

/-- **Visiting the rows of a range** gives them their new paths all at once, if they can be
rewritten. -/
theorem retarget?_assigned? (hNodup : (t.map (·.path)).Nodup) :
    retarget? (assigned? range reroot) [] t = some t' ↔
      t' = t.relocate (rewritten range reroot) ∧ t.Rewritable range reroot := by
  have hVisits : retarget? (assigned? range reroot) [] t = some t' ↔ _ := retarget?_eq_some hNodup
  rw [hVisits, sent_assigned?, List.nil_append, rewritable_iff hNodup]
  refine and_congr_right fun hEnd => ?_
  rw [hEnd]

/-! ## The statement -/

section Statement

variable (hNodup : (t.map (·.path)).Nodup) {remainder : Text → Text} {start : Text}

theorem rerootWithin_eq_visits (t : Table) (range : TextRange) (remainder : Text → Text)
    (start : Text) :
    t.rerootWithin range remainder start =
      match retarget? (assigned? range fun path => start ++ remainder path) [] t with
      | some t' => .ok ((t.within range).length, t')
      | none => .error (.duplicatePath
          ((t.firstTaken? range fun path => start ++ remainder path).getD start)) := by
  rw [within, ← List.countP_eq_length_filter]
  rfl

include hNodup

/-- If the rows can be rewritten, the statement gives all of them their new paths. -/
theorem rerootWithin_of_rewritable (w : t.Rewritable range fun path => start ++ remainder path) :
    t.rerootWithin range remainder start =
      .ok ((t.within range).length,
        t.relocate (rewritten range fun path => start ++ remainder path)) := by
  rw [rerootWithin_eq_visits, (retarget?_assigned? hNodup).mpr ⟨rfl, w⟩]

/-- **If they cannot be rewritten**, the statement names the least new path that is taken, or the
new beginning if none is. -/
theorem rerootWithin_of_not_rewritable
    (hNot : ¬ t.Rewritable range fun path => start ++ remainder path) :
    ∃ p, t.rerootWithin range remainder start = .error (.duplicatePath p) ∧
      (t.IsTakenWithin range (fun path => start ++ remainder path) p ∧
          (∀ q, t.IsTakenWithin range (fun path => start ++ remainder path) q →
            q = p ∨ Text.octets p < Text.octets q) ∨
        (∀ q, ¬ t.IsTakenWithin range (fun path => start ++ remainder path) q) ∧ p = start) := by
  have hVisits : retarget? (assigned? range fun path => start ++ remainder path) [] t = none := by
    refine Option.eq_none_iff_forall_not_mem.mpr fun t' hRun => ?_
    exact hNot ((retarget?_assigned? hNodup).mp hRun).2
  rw [rerootWithin_eq_visits, hVisits]
  refine ⟨_, rfl, ?_⟩
  cases hFirst : t.firstTaken? range fun path => start ++ remainder path with
  | some q => exact .inl (least_of_firstTaken? hFirst)
  | none => exact .inr ⟨firstTaken?_eq_none.mp hFirst, rfl⟩

end Statement

/-- Two ways to make new paths leave the same rows exactly if they agree on the range. -/
theorem relocate_rewritten_eq_iff {f g : Text → Text} :
    t.relocate (rewritten range f) = t.relocate (rewritten range g) ↔
      ∀ r ∈ t.within range, f r.path = g r.path := by
  rw [relocate, relocate, List.map_inj_left]
  constructor
  · intro hSame r hr
    obtain ⟨hr, hIn⟩ := mem_within_range.mp hr
    have hPath := congrArg Row.path (hSame r hr)
    rwa [Row.relocate_path, Row.relocate_path, rewritten_of_mem hIn,
      rewritten_of_mem hIn] at hPath
  · intro hAgree r hr
    rw [Row.relocate, Row.relocate]
    cases hIn : range.contains r.path with
    | true =>
      rw [rewritten_of_mem hIn, rewritten_of_mem hIn, hAgree r (mem_within_range.mpr ⟨hr, hIn⟩)]
    | false => rw [rewritten_of_outside hIn, rewritten_of_outside hIn]

/-- **Rewriting the paths of a range** in a table of distinct paths: each row in the range gets the
path that consists of `start` and what is behind the first characters of its old path.  If no new
path is that of a row outside the range, of an earlier row in the range that has been rewritten, or
of a later one that has not, then each row in the range moves once, all others stay, the paths are
distinct again, and the number of the rows is returned.  Else the table stays as it is, and the
failure names the least new path that some row has, or `start` if there is none.

The rows come to lie where dropping the characters would have them exactly if that is what is
behind the characters in every path of the range, which is so as long as the number of characters
and one more fit into 32 bits with a sign. -/
theorem rerootWithin_exact (hNodup : (t.map (·.path)).Nodup) (range : TextRange) (strip : Nat)
    (start : Text) (supply : Supply) :
    let reroot (path : Text) : Text := start ++ Text.behind strip path
    let moved := t.relocate (rewritten range reroot)
    let run := (Action.write fun t => t.rerootWithin range (Text.behind strip) start).on
      t true supply
    (t.Rewritable range reroot →
      run = (.ok (t.within range).length, moved, supply) ∧ (moved.map (·.path)).Nodup) ∧
    (¬ t.Rewritable range reroot → ∃ p, run = (.error (.duplicatePath p), t, supply) ∧
      (t.IsTakenWithin range reroot p ∧
          (∀ q, t.IsTakenWithin range reroot q → q = p ∨ Text.octets p < Text.octets q) ∨
        (∀ q, ¬ t.IsTakenWithin range reroot q) ∧ p = start)) ∧
    (moved = t.relocate (rewritten range fun path => start ++ path.drop strip) ↔
      ∀ r ∈ t.within range, Text.behind strip r.path = r.path.drop strip) ∧
    (strip < 0x7FFFFFFF → ∀ path, Text.behind strip path = path.drop strip) := by
  intro reroot moved run
  refine ⟨fun w => ⟨?_, w.nodup hNodup⟩, fun hNot => ?_, ?_, fun hFew => Text.behind_eq_drop hFew⟩
  · exact on_eq_ok.mpr ⟨true, write_eq_ok.mpr
      ⟨rfl, _, rerootWithin_of_rewritable hNodup w, rfl⟩⟩
  · obtain ⟨p, hStatement, hLeast⟩ := rerootWithin_of_not_rewritable hNodup hNot
    exact ⟨p, on_eq_error.mpr ⟨true, (write_eq_error rfl).mpr ⟨hStatement, rfl⟩⟩, hLeast⟩
  · rw [relocate_rewritten_eq_iff]
    simp only [reroot, List.append_right_inj]

/-- Without its first character, `aab` becomes `ab`, which lies in the range again.  That is its
path in the end if `ab` has been rewritten by then, and is refused if it has not. -/
theorem rerootWithin_exact_in_turn :
    let range : TextRange := ⟨['a'], ['b']⟩
    let long : Row := ⟨.null, ['a', 'a', 'b']⟩
    let short : Row := ⟨.null, ['a', 'b']⟩
    let run (t : Table) := (Action.write fun t => t.rerootWithin range (Text.behind 1) []).on
      t true (.ofSeed 0)
    ([short, long].map (·.path)).Nodup ∧ ([long, short].map (·.path)).Nodup ∧
      run [short, long] = (.ok 2, [⟨.null, ['b']⟩, ⟨.null, ['a', 'b']⟩], .ofSeed 0) ∧
      run [long, short] = (.error (.duplicatePath ['a', 'b']), [long, short], .ofSeed 0) := by
  intro range long short run
  have hNodup : ([short, long].map (·.path)).Nodup := by decide
  have hNodup' : ([long, short].map (·.path)).Nodup := by decide
  refine ⟨hNodup, hNodup', ?_, ?_⟩
  · obtain ⟨hWorks, -⟩ := rerootWithin_exact hNodup range 1 [] (.ofSeed 0)
    obtain ⟨hRun, -⟩ := hWorks (by decide +kernel)
    have hMoved : relocate (rewritten range fun path => [] ++ Text.behind 1 path) [short, long] =
        [⟨.null, ['b']⟩, ⟨.null, ['a', 'b']⟩] := by decide +kernel
    have hCount : (within [short, long] range).length = 2 := by decide +kernel
    rwa [hMoved, hCount] at hRun
  · obtain ⟨-, hFails, -⟩ := rerootWithin_exact hNodup' range 1 [] (.ofSeed 0)
    obtain ⟨p, hRun, ⟨⟨hHeld, r, hr, hNew⟩, -⟩ | ⟨hNone, -⟩⟩ := hFails (by decide +kernel)
    · have hOnly : ∀ r ∈ within [long, short] range,
          holdsPath [long, short] (Text.behind 1 r.path) = true →
            Text.behind 1 r.path = ['a', 'b'] := by decide +kernel
      obtain rfl : p = ['a', 'b'] := by
        rw [← hNew] at hHeld ⊢
        exact hOnly r hr hHeld
      exact hRun
    · refine absurd ⟨?_, long, ?_, ?_⟩ (hNone ['a', 'b']) <;> decide +kernel

/-- **The characters are not always dropped**: behind 4294967294 of them, the last character of a
path is kept. -/
theorem not_always_dropped :
    ¬ ∀ (t : Table) (range : TextRange) (strip : Nat) (start : Text) (supply : Supply) (n : Nat)
        (t' : Table) (supply' : Supply), (t.map (·.path)).Nodup → strip < 0x7FFFFFFFFFFFFFFF →
      (Action.write fun t => t.rerootWithin range (Text.behind strip) start).on t true supply =
        (.ok n, t', supply') →
      t' = t.relocate (rewritten range fun path => start ++ path.drop strip) := by
  intro hAll
  have hRun : (Action.write fun t => t.rerootWithin ⟨['a'], ['b']⟩ (Text.behind 4294967294)
      ['q', '/']).on [⟨.null, ['a', 'b', 'c']⟩] true (.ofSeed 0) =
        (.ok 1, [⟨.null, ['q', '/', 'c']⟩], .ofSeed 0) :=
    on_eq_ok.mpr ⟨true, write_eq_ok.mpr ⟨rfl, _, by decide +kernel, rfl⟩⟩
  have hDropped := hAll _ _ _ _ _ _ _ _ (by decide +kernel) (by decide +kernel) hRun
  exact absurd hDropped (by decide +kernel)

end Table

end PathRegistry
