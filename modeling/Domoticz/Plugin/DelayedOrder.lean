import Domoticz.Plugin.WorkLoop

/-!
# The order of delayed messages

Two messages that wait in the queue change their order when the scan stops between them: the
first one is at the back by then and the second one is not.

## Main definitions

* `KeepsOrder` — of two delayed messages the one that is due first is processed first.
* `Whole` — a scan does not stop between two messages that wait.

## Main results

* `delayed_in_order` — **delayed messages keep their order in every run of whole scans.**
* `delayed_overtaken` — a message between two others makes them change places.
-/

namespace Domoticz.WorkLoop

open Transition

/-- A delayed message is processed before the later ones that are due no earlier. -/
def KeepsOrder (s : State) : Prop :=
  ∀ a ∈ s.accepted, ∀ b ∈ s.processed.map Prod.snd, a.number < b.number → a.delay = true →
    b.delay = true → a.due ≤ b.due → [a, b].Sublist (s.processed.map Prod.snd)

/-- The scan takes the first message, or there is no delayed one behind the one it takes. -/
def wholeScan (now : ℤ) (queue : List Item) : Bool :=
  match queue.dropWhile (waiting now) with
  | [] => true
  | _ :: rest => (queue.takeWhile (waiting now)).isEmpty || rest.all fun y => !y.delay

/-- No scan stops between two messages with a delay. -/
def Whole (s : State) (e : Event) : Prop :=
  e = .work → s.pc = .scan → wholeScan s.now s.queue = true

instance (s : State) (e : Event) : Decidable (Whole s e) :=
  inferInstanceAs (Decidable (_ → _ → _))

/-- The delayed messages of the queue are in the order of acceptance. -/
structure InOrder (s : State) : Prop extends Inv s where
  queued : (s.queue.filter fun x => x.delay).Pairwise fun x y => x.number < y.number
  hand : ∀ b ∈ s.inHand, b.delay = true → ∀ a ∈ s.queue, a.delay = true →
    a.number < b.number → b.due < a.due
  keeps : KeepsOrder s

/-! ### Numbers -/

theorem number_lt {s : State} (h : Inv s) {x : Item} (hx : x ∈ s.accepted) :
    x.number < s.accepted.length := by
  have hmem := List.mem_map_of_mem (f := Item.number) hx
  rw [h.numbered, List.mem_range] at hmem
  exact hmem

theorem mem_accepted_of_queue {s : State} (h : Inv s) {x : Item} (hx : x ∈ s.queue) :
    x ∈ s.accepted := by
  refine h.once.subset ?_
  rw [State.all]
  exact List.mem_append_right _ hx

theorem mem_accepted_of_hand {s : State} (h : Inv s) {x : Item} (hx : x ∈ s.inHand) :
    x ∈ s.accepted := by
  refine h.once.subset ?_
  rw [State.all]
  exact List.mem_append_left _ (List.mem_append_right _ hx)

theorem mem_accepted_of_processed {s : State} (h : Inv s) {x : Item}
    (hx : x ∈ s.processed.map Prod.snd) : x ∈ s.accepted := by
  refine h.once.subset ?_
  rw [State.all]
  exact List.mem_append_left _ (List.mem_append_left _ (List.mem_append_left _ hx))

/-! ### The steps -/

/-- What does not look at the messages keeps their order. -/
theorem InOrder.of_same {s s' : State} (h : InOrder s) (hinv : Inv s')
    (hqueue : s'.queue = s.queue) (hhand : ∀ b ∈ s'.inHand, b ∈ s.inHand)
    (haccepted : s'.accepted = s.accepted) (hprocessed : s'.processed = s.processed) :
    InOrder s' where
  toInv := hinv
  queued := by rw [hqueue]; exact h.queued
  hand b hb := by rw [hqueue]; exact h.hand b (hhand b hb)
  keeps := by
    unfold KeepsOrder
    rw [haccepted, hprocessed]
    exact h.keeps

theorem inOrder_accept {s : State} (h : InOrder s) (m : Message) : InOrder (accept s m) where
  toInv := inv_accept h.toInv m
  queued := by
    show ((s.queue ++ [_]).filter _).Pairwise _
    rw [List.filter_append, List.pairwise_append]
    refine ⟨h.queued, (List.pairwise_singleton _ _).filter _, fun x hx y hy => ?_⟩
    rw [List.mem_singleton.mp (List.mem_of_mem_filter hy)]
    exact number_lt h.toInv (mem_accepted_of_queue h.toInv (List.mem_of_mem_filter hx))
  hand b hb hdelay a ha hdelay' hlt := by
    rcases List.mem_append.mp ha with ha | ha
    · exact h.hand b hb hdelay a ha hdelay' hlt
    · -- the new message has the largest number
      rw [List.mem_singleton.mp ha] at hlt
      exact absurd (number_lt h.toInv (mem_accepted_of_hand h.toInv hb)) hlt.not_gt
  keeps a ha b hb hlt := by
    rcases List.mem_append.mp ha with ha | ha
    · exact h.keeps a ha b hb hlt
    · rw [List.mem_singleton.mp ha] at hlt
      exact absurd (number_lt h.toInv (mem_accepted_of_processed h.toInv hb)) hlt.not_gt

/-- A whole scan leaves the delayed messages in order, and takes the first one that is due. -/
theorem inOrder_scan {s : State} (h : InOrder s) (hpc : s.pc = .scan)
    (hwhole : wholeScan s.now s.queue = true) : InOrder (work s) := by
  have hinv := inv_work h.toInv
  unfold work at hinv ⊢
  simp only [hpc] at hinv ⊢
  rcases scan_cases s.now s.queue with ⟨hscan, -⟩ | ⟨front, x, rest, hq, hfront, hx, hscan⟩
  · simp only [hscan] at hinv ⊢
    exact h.of_same hinv rfl (List.forall_mem_nil _) rfl rfl
  · simp only [hscan] at hinv ⊢
    have hdrop : s.queue.dropWhile (waiting s.now) = x :: rest := by
      rw [hq, List.dropWhile_append_of_pos hfront, List.dropWhile_cons_of_neg]
      rw [hx]
      exact Bool.false_ne_true
    have htake : s.queue.takeWhile (waiting s.now) = front := by
      have hsplit := List.takeWhile_append_dropWhile (p := waiting s.now) (l := s.queue)
      rw [hdrop] at hsplit
      exact List.append_cancel_right (hsplit.trans hq)
    -- what is scanned goes to the end, which is harmless if nothing there is delayed
    have hcases : front = [] ∨ ∀ y ∈ rest, y.delay = false := by
      rw [wholeScan, hdrop, htake] at hwhole
      simp only [Bool.or_eq_true, List.isEmpty_iff, List.all_eq_true, Bool.not_eq_true'] at hwhole
      exact hwhole
    have hqueued := h.queued
    rw [hq, List.filter_append, List.pairwise_append] at hqueued
    obtain ⟨hfrontOrder, hrestOrder, hbetween⟩ := hqueued
    have hrest' : (rest.filter fun y => y.delay).Pairwise fun x y => x.number < y.number := by
      refine hrestOrder.sublist (List.Sublist.filter _ (List.sublist_cons_self x rest))
    refine ⟨hinv, ?_, ?_, h.keeps⟩
    · show ((rest ++ front).filter _).Pairwise _
      rw [List.filter_append]
      rcases hcases with rfl | hnone
      · rw [List.filter_nil, List.append_nil]
        exact hrest'
      · have hnil : rest.filter (fun y => y.delay) = [] := by
          rw [List.filter_eq_nil_iff]
          intro y hy
          rw [hnone y hy]
          exact Bool.false_ne_true
        rw [hnil, List.nil_append]
        exact hfrontOrder
    · intro b hb hdelay a ha hdelay' hlt
      rw [List.mem_singleton.mp hb] at hdelay hlt ⊢
      rcases List.mem_append.mp ha with ha | ha
      · -- it is behind the one that is taken
        have hlt' : x.number < a.number := by
          have hcons : (x :: rest).filter (fun y => y.delay) =
              x :: rest.filter fun y => y.delay := List.filter_cons_of_pos hdelay
          rw [hcons, List.pairwise_cons] at hrestOrder
          exact hrestOrder.1 a (List.mem_filter.mpr ⟨ha, hdelay'⟩)
        exact absurd hlt hlt'.not_gt
      · -- it waits, and the one that is taken does not
        have hwait := hfront a ha
        rw [waiting, hdelay', Bool.true_and, decide_eq_true_eq] at hwait
        rw [waiting, hdelay, Bool.true_and, decide_eq_false_iff_not, not_lt] at hx
        exact hx.trans_lt hwait

/-- The message that is processed is behind all that have to be in front of it. -/
theorem keepsOrder_process {s s' : State} {x : Item} (h : InOrder s) (hpc : s.pc = .process x)
    (hint : s.interpreter = true) (haccepted : s'.accepted = s.accepted)
    (hprocessed : s'.processed = s.processed ++ [(s.clock, x)]) : KeepsOrder s' := by
  have hhand : s.inHand = [x] := by rw [State.inHand, hpc]
  intro a ha b hb hlt hdelay hdelay' hdue
  rw [haccepted] at ha
  rw [hprocessed, List.map_append, List.mem_append] at hb
  rw [hprocessed, List.map_append]
  rcases hb with hb | hb
  · exact (h.keeps a ha b hb hlt hdelay hdelay' hdue).trans (List.sublist_append_left _ _)
  · obtain rfl : b = x := List.mem_singleton.mp hb
    have hall := h.once.symm.subset ha
    rw [State.all, h.kept hint, hhand, List.append_nil, List.mem_append, List.mem_append,
      List.mem_singleton] at hall
    rcases hall with (hp | rfl) | hq
    · have hfirst : [a].Sublist (s.processed.map Prod.snd) := List.singleton_sublist.mpr hp
      exact hfirst.append (List.Sublist.refl [b])
    · exact absurd hlt (lt_irrefl _)
    · have hmem : b ∈ s.inHand := by
        rw [hhand]
        exact List.mem_singleton_self b
      exact absurd hdue (h.hand b hmem hdelay' a hq hdelay hlt).not_ge

theorem inOrder_work {s : State} (h : InOrder s)
    (hwhole : s.pc = .scan → wholeScan s.now s.queue = true) : InOrder (work s) := by
  cases hpc : s.pc with
  | scan => exact inOrder_scan h hpc (hwhole hpc)
  | process x =>
    have hinv := inv_work h.toInv
    unfold work at hinv ⊢
    simp only [hpc] at hinv ⊢
    split
    · next hint =>
      rw [if_pos hint] at hinv
      exact ⟨hinv, h.queued, List.forall_mem_nil _, keepsOrder_process h hpc hint rfl rfl⟩
    · next hint =>
      rw [if_neg hint] at hinv
      -- the queue is only looked at
      exact h.of_same hinv rfl (List.forall_mem_nil _) rfl rfl
  | outer =>
    have hinv := inv_work h.toInv
    unfold work at hinv ⊢
    simp only [hpc] at hinv ⊢
    split
    · next hs =>
      rw [if_pos hs] at hinv
      exact h.of_same hinv rfl (List.forall_mem_nil _) rfl rfl
    · next hs =>
      rw [if_neg hs] at hinv
      exact h.of_same hinv rfl (List.forall_mem_nil _) rfl rfl
  | check processed =>
    have hinv := inv_work h.toInv
    unfold work at hinv ⊢
    simp only [hpc] at hinv ⊢
    split
    · next hs =>
      rw [if_pos hs] at hinv
      exact h.of_same hinv rfl (List.forall_mem_nil _) rfl rfl
    · next hs =>
      rw [if_neg hs] at hinv
      exact h.of_same hinv rfl (by cases processed <;> exact List.forall_mem_nil _) rfl rfl
  | request processed seen =>
    have hinv := inv_work h.toInv
    unfold work at hinv ⊢
    simp only [hpc] at hinv ⊢
    exact h.of_same hinv rfl (by cases processed <;> exact List.forall_mem_nil _) rfl rfl
  | done =>
    unfold work
    rw [hpc]
    exact h

/-- Every event of a run of whole scans keeps the order. -/
theorem inOrder_step (s : State) (e : Event) (h : InOrder s) (hwhole : Whole s e) :
    InOrder (step s e) := by
  have hinv := inv_step s e h.toInv
  cases e with
  | enter m =>
    rw [step] at hinv ⊢
    split
    · exact h
    · next hs =>
      rw [if_neg hs] at hinv
      exact h.of_same hinv rfl (fun _ => id) rfl rfl
  | push i =>
    rw [step]
    split
    · exact h
    · next m _ =>
      have hsame : InOrder { s with pushing := s.pushing.eraseIdx i } :=
        ⟨h.toInv.of_same rfl rfl h.due h.kept h.now_le h.ready h.since, h.queued, h.hand, h.keeps⟩
      exact inOrder_accept hsame m
  | elapse seconds => exact h.of_same hinv rfl (fun _ => id) rfl rfl
  | setStopping => exact h.of_same hinv rfl (fun _ => id) rfl rfl
  | endInterpreter => exact h.of_same hinv rfl (fun _ => id) rfl rfl
  | work => exact inOrder_work h (hwhole rfl)

theorem inOrder_start (clock : ℤ) (isStopping : Bool) : InOrder (start clock isStopping) where
  toInv := inv_start clock isStopping
  queued := List.Pairwise.nil
  hand := List.forall_mem_nil _
  keeps := List.forall_mem_nil _

/-- Delayed messages keep their order in all states of a run of whole scans. -/
theorem delayed_in_order (clock : ℤ) (isStopping : Bool) (es : List Event)
    (h : Throughout step Whole (start clock isStopping) es) :
    ∀ es', es' <+: es → KeepsOrder (es'.foldl step (start clock isStopping)) := by
  intro es' hprefix
  have hinv := throughout_invariant inOrder_step (inOrder_start clock isStopping) h es' hprefix
  exact hinv.keeps

/-- Two messages with the same delay. -/
def twoDelayed : List Event :=
  [.enter ⟨true, 2, false⟩, .push 0, .enter ⟨true, 2, false⟩, .push 0, .work, .work, .work,
    .elapse 2, .work, .work, .work, .work, .work, .work]

theorem twoDelayed_in_order : KeepsOrder (twoDelayed.foldl step (start 0 false)) :=
  delayed_in_order 0 false twoDelayed (by decide) twoDelayed (List.prefix_refl _)

/-- The same with a message between them. -/
def threeMessages : List Event :=
  [.enter ⟨true, 2, false⟩, .push 0, .enter ⟨false, 0, false⟩, .push 0, .enter ⟨true, 2, false⟩,
    .push 0, .work, .work, .work, .work, .work, .work, .elapse 2, .work, .work, .work]

/-- The second one is processed, and the first one is not. -/
theorem delayed_overtaken : ¬ KeepsOrder (threeMessages.foldl step (start 0 false)) := by
  intro h
  have hsub := h ⟨⟨true, 2, false⟩, 0⟩ (by decide) ⟨⟨true, 2, false⟩, 2⟩ (by decide) (by decide)
    rfl rfl (le_refl _)
  revert hsub
  decide

end Domoticz.WorkLoop
