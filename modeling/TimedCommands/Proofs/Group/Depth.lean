import Mathlib.Data.Finset.Card
import TimedCommands.Proofs.Group.Cycle
import TimedCommands.Proofs.Group.Stepping

/-!
# How deep references are followed

References may form any graph, and following them goes as deep as they lead. What bounds the depth
is the stack of active slots. At every point of an evaluation it holds the trail that led to the
slot at hand, and exactly the slots of the calls that wait (`Stacked`). A trail meets no slot twice,
and every slot on it is bound to a reference, so it is no longer than the group has such slots
(`Stacked.sound`). Calls are left in the order opposite to that in which they were entered, after a
fault as well, so nothing is left on the stack behind the outermost one.

`reference_depth_bounded` tells this of every state between the beginning of an evaluation, or of
the resolving of a group, and its end.
-/

namespace TimedCommands.Group

open Resolving (Reaches)

variable {group : Group} {iteration : Nat} {origin slot : SlotName} {chain : List SlotName}
  {resolving next : Resolving}

/-- The slots of a group that are bound to a reference. -/
def referenceSlots (group : Group) : Finset SlotName :=
  (group.slotNames.filter fun slot => (group.source? slot).isSome).toFinset

/-- The active slots are those of the waiting calls, and the trail to the slot at hand. -/
structure Stacked (group : Group) (resolving : Resolving) : Prop where
  calls : resolving.active = resolving.waiting.reverse
  trail : ∀ slot ∈ resolving.point.slot?, ∃ origin, group.Trail origin resolving.active slot
  idle : resolving.point.slot? = none → resolving.waiting = []

/-- What can be relied on at every point of an evaluation. -/
structure SoundStack (group : Group) (resolving : Resolving) : Prop where
  distinct : resolving.active.Nodup
  declared : ∀ slot ∈ resolving.active, group.declares slot
  /-- Each active slot is bound to a reference to the next, the last one to the slot at hand. -/
  linked : (resolving.active ++ resolving.point.slot?.toList).IsChain fun slot next =>
    group.binding? slot = some (some (.reference next))
  shallow : resolving.depth ≤ group.referenceSlots.card + 1
  /-- Nothing is active before and after a call that no other call waits for. -/
  emptied : resolving.waiting = [] → resolving.active = []

/-- A slot that leads on is one of those with a reference. -/
theorem mem_referenceSlots {source : SlotName} (leads : group.source? slot = some source) :
    slot ∈ group.referenceSlots := by
  simp [referenceSlots, mem_slotNames_of_source? leads, leads]

/-- The last slot of a trail is reached by the trail before it. -/
theorem Trail.back {last : SlotName} (trail : group.Trail origin (chain ++ [last]) slot) :
    group.Trail origin chain last where
  begins := by
    have begins := trail.begins
    rw [List.head?_append] at begins
    cases chain <;> simpa using begins
  linked := trail.linked.left_of_append
  distinct := (List.nodup_append.mp trail.distinct).1

/-- Every slot that a trail has passed is bound to a reference. -/
theorem Trail.subset_referenceSlots (trail : group.Trail origin chain slot) :
    ∀ met ∈ chain, met ∈ group.referenceSlots := by
  intro met member
  obtain ⟨position, isPosition, rfl⟩ := List.getElem_of_mem member
  have leads := List.isChain_iff_getElem.mp trail.linked position (by simpa using isPosition)
  rw [List.getElem_append_left isPosition] at leads
  exact mem_referenceSlots leads

/-- A trail is no longer than there are slots with a reference. -/
theorem Trail.length_le (trail : group.Trail origin chain slot) :
    chain.length ≤ group.referenceSlots.card := by
  rw [← List.toFinset_card_of_nodup trail.distinct]
  exact Finset.card_le_card fun met member =>
    trail.subset_referenceSlots met (List.mem_toFinset.mp member)

/-- At the start, nothing is on the stack. -/
theorem stacked_start (group : Group) (slots : List SlotName) :
    group.Stacked (.start slots) where
  calls := rfl
  trail := by simp [Resolving.start, Point.slot?]
  idle _ := rfl

/-- While the value of a slot is called for or returned, the stack is the trail to it. -/
theorem stacked_of_trail (calls : resolving.active = resolving.waiting.reverse)
    (here : resolving.point.slot? = some slot) (trail : group.Trail origin resolving.active slot) :
    group.Stacked resolving where
  calls := calls
  trail := by
    rintro met isAt
    obtain rfl : slot = met := Option.some.inj (here.symm.trans isAt)
    exact ⟨origin, trail⟩
  idle nowhere := by cases here.symm.trans nowhere

/-- A call either returns at once, on the same trail, or its slot is put at the end of the trail. -/
theorem Stacked.ask (stacked : group.Stacked resolving) (asked : resolving.point = .asked slot) :
    group.Stacked (resolving.ask group iteration slot) := by
  obtain ⟨origin, trail⟩ := stacked.trail slot (by simp [asked, Point.slot?])
  rcases ask_cases group iteration resolving slot with settled | ⟨source, -, outside, leads, goesOn⟩
  · rw [settled]
    cases group.pull iteration resolving.active resolving.known slot with
    | ok found => exact stacked_of_trail stacked.calls rfl trail
    | error fault => exact stacked_of_trail stacked.calls rfl trail
  · rw [goesOn]
    exact stacked_of_trail (by simp [stacked.calls]) rfl (trail.step outside leads)

/-- A call returns to the last slot of its trail, which is taken off whatever the outcome. -/
theorem Stacked.back {outcome : Except Fault Value} (stacked : group.Stacked resolving)
    (answered : resolving.point = .answered slot outcome)
    (returns : resolving.back outcome = some next) : group.Stacked next := by
  obtain ⟨origin, trail⟩ := stacked.trail slot (by simp [answered, Point.slot?])
  obtain ⟨wanted, values, known, active, waiting, point⟩ := resolving
  obtain rfl : active = waiting.reverse := stacked.calls
  cases waiting with
  | nil =>
    cases outcome with
    | ok value =>
      cases returns
      exact ⟨rfl, by simp [Point.slot?], fun _ => rfl⟩
    | error fault => cases returns
  | cons last waiting =>
    have popped : (last :: waiting).reverse.dropLast = waiting.reverse := by simp
    rw [List.reverse_cons] at trail
    cases outcome with
    | ok value =>
      cases returns
      exact stacked_of_trail popped rfl (popped.symm ▸ trail.back)
    | error fault =>
      cases returns
      exact stacked_of_trail popped rfl (popped.symm ▸ trail.back)

/-- One step keeps the stack a trail. -/
theorem Stacked.step (stacked : group.Stacked resolving)
    (steps : resolving.step group iteration = some next) : group.Stacked next := by
  -- Between two calls the stack is empty, a call pushes at most its own slot, and a return pops one.
  cases isAt : resolving.point with
  | idle =>
    obtain ⟨wanted, values, known, active, waiting, point⟩ := resolving
    cases isAt
    obtain rfl : waiting = [] := stacked.idle rfl
    obtain rfl : active = [] := stacked.calls
    cases wanted with
    | nil => cases steps
    | cons slot wanted =>
      cases steps
      exact stacked_of_trail rfl rfl (group.trail_self slot)
  | asked slot =>
    rw [Resolving.step, isAt] at steps
    cases steps
    exact stacked.ask isAt
  | answered slot outcome =>
    rw [Resolving.step, isAt] at steps
    exact stacked.back isAt steps

/-- However many steps are taken, the stack is a trail. -/
theorem Stacked.of_reaches (stacked : group.Stacked resolving)
    (reaches : Reaches group iteration resolving next) : group.Stacked next := by
  induction reaches with
  | refl => exact stacked
  | tail _ steps ih => exact ih.step steps

/-- A stack that is a trail is sound: its slots are distinct, each refers to the next, and there are
no more of them than there are references. -/
theorem Stacked.sound (stacked : group.Stacked resolving) : group.SoundStack resolving := by
  have emptied : resolving.waiting = [] → resolving.active = [] := by
    intro alone
    rw [stacked.calls, alone, List.reverse_nil]
  cases isAt : resolving.point.slot? with
  | none =>
    have alone := stacked.idle isAt
    have empty := emptied alone
    have shallow : resolving.depth ≤ group.referenceSlots.card + 1 := by
      rw [Resolving.depth, alone]
      split <;> simp
    exact ⟨by simp [empty], by simp [empty], by simp [empty, isAt], shallow, emptied⟩
  | some slot =>
    obtain ⟨origin, trail⟩ := stacked.trail slot isAt
    have deep : resolving.depth ≤ resolving.active.length + 1 := by
      rw [Resolving.depth, stacked.calls, List.length_reverse]
      split <;> omega
    refine ⟨trail.distinct, ?_, ?_, deep.trans (Nat.succ_le_succ trail.length_le), emptied⟩
    · have declared := declares_of_isChain trail.linked
      rwa [List.dropLast_concat] at declared
    · rw [isAt]
      exact trail.linked.imp fun slot next leads => source?_eq_some_iff.mp leads

/-- Every state on the way from the beginning to the end of resolving slots has a sound stack, and
leads to the end. -/
theorem sound_until_outcome {slots : List SlotName}
    (reaches : Reaches group iteration (.start slots) resolving) :
    group.SoundStack resolving ∧ ∃ final, Reaches group iteration resolving final ∧
      final.outcome? = some ((group.pullAll iteration slots []).map (·.1)) := by
  obtain ⟨final, whole, outcome⟩ := reaches_outcome group iteration slots [] []
  have ended : final.step group iteration = none :=
    Resolving.step_eq_none_iff.mpr ⟨_, outcome⟩
  exact ⟨((group.stacked_start slots).of_reaches reaches).sound, final,
    reaches.to_end whole ended, outcome⟩

/-- References are followed to a bounded depth. At every point of evaluating a slot, and of
resolving a group, the stack holds pairwise distinct declared slots, each bound to a reference to
the next and the last to the slot at hand; no more calls are nested in each other than the group has
slots that are bound to a reference, and one; and the stack is empty wherever no call waits, so
after every outermost call, also if it failed. Every call returns what its slot is pulled to behind
the active slots, and leaves the stack as it was. From every point the work comes to its end, with
the outcome of the evaluation. -/
theorem reference_depth_bounded (group : Group) (iteration : Nat) :
    (∀ slot resolving, Reaches group iteration (.start [slot]) resolving →
      group.SoundStack resolving ∧ ∃ final, Reaches group iteration resolving final ∧
        final.outcome? = some ((group.evaluate slot iteration).map fun value => [value])) ∧
    (∀ resolving, Reaches group iteration (.start group.enabledSlots) resolving →
      group.SoundStack resolving ∧ ∃ final, Reaches group iteration resolving final ∧
        final.outcome? = some ((group.resolve iteration).map fun resolved =>
          resolved.flatMap (·.arguments))) ∧
    ∀ (resolving : Resolving) slot, resolving.point = .asked slot →
      Reaches group iteration resolving
        (resolving.returned slot (group.pull iteration resolving.active resolving.known slot)) := by
  refine ⟨fun slot resolving reaches => ?_, fun resolving reaches => ?_, reaches_answered⟩
  · rw [← pullAll_singleton]
    exact sound_until_outcome reaches
  · rw [resolve, ← pullAll_slots, ← enabledSlots_eq_flatMap]
    exact sound_until_outcome reaches

/-- The bound is met: three calls are nested where two references lead on. -/
example :
    let refers (placeholder : Placeholder) (source : SlotName) : Command :=
      ⟨"move", [⟨placeholder, some (.reference source)⟩], true⟩
    let group : Group :=
      ⟨"G", [refers "a" ⟨⟨1⟩, "b"⟩, refers "b" ⟨⟨2⟩, "c"⟩,
        ⟨"move", [⟨"c", some (.constant (.integer 1))⟩], true⟩]⟩
    ∃ resolving, Reaches group 0 (.start [⟨⟨0⟩, "a"⟩]) resolving ∧ resolving.depth = 3 ∧
      group.referenceSlots.card = 2 :=
  ⟨_, .head rfl (.head rfl (.head rfl .refl)), rfl, by decide⟩

end TimedCommands.Group
