/-
  Producers that fill bounded queues, and one consumer that drains them.

  A producer runs on its own until it sends; a send waits while the queue is full, and is
  refused once the consumer has ended.  The consumer names the queue that it waits for.

  * `Network`: what the producers and the consumer do next;
  * `step`, `run`: the system under a schedule;
  * `Sends`: what a producer sends when nothing is refused, and `Drains`: what the consumer
    makes of such supplies;
  * `run_drains`: **where the consumer ends, it ends as it does on the supplies**;
  * `Network.Keeps`, `run_holds`: what holds of every producer and message, and of how many
    messages there are;
  * `exists_step`, `run_length`: no run is stuck before its end, and every run has one.
-/
import Coseva.Lib.Schedule
import Mathlib.Data.List.Forall2

namespace Channels

variable {P M C : Type}

/-- What a producer does next. -/
inductive Move (P M : Type) where
  | work (next : P)
  | send (message : M) (next : P)
  | halt

/-- Producers that are in states of `P`, messages of `M` and a consumer with states of `C`. -/
structure Network (P M C : Type) where
  move : P → Move P M
  /-- a producer whose message is refused -/
  refused : P → P
  /-- the queue that the consumer waits for, until it has ended -/
  awaits : C → Option ℕ
  /-- the consumer behind a message, or behind the last one of a producer that has halted -/
  take : C → Option M → C
  /-- how many messages a queue holds -/
  depth : ℕ

/-- The producers with their queues, and the consumer. -/
structure State (P M C : Type) where
  producers : List (P × List M)
  consumer : C

/-- Who takes a step. -/
inductive Action where
  | produce (i : ℕ)
  | consume

/-- The system at its start. -/
def spawn (producers : List P) (consumer : C) : State P M C :=
  ⟨producers.map fun p => (p, []), consumer⟩

variable (n : Network P M C)

/-- A step of a producer: none while its queue is full, or once it has halted. -/
def produce (s : State P M C) (i : ℕ) (p : P) (queue : List M) : Option (State P M C) :=
  match n.move p with
  | .work next => some { s with producers := s.producers.set i (next, queue) }
  | .send message next =>
    if n.awaits s.consumer = none then
      some { s with producers := s.producers.set i (n.refused p, queue) }
    else if queue.length < n.depth then
      some { s with producers := s.producers.set i (next, queue ++ [message]) }
    else none
  | .halt => none

/-- A step of the consumer, which waits for the queue `i`: none while it is empty, unless its
    producer has halted. -/
def consume (s : State P M C) (i : ℕ) : P × List M → Option (State P M C)
  | (p, message :: queue) =>
    some ⟨s.producers.set i (p, queue), n.take s.consumer (some message)⟩
  | (p, []) =>
    match n.move p with
    | .halt => some { s with consumer := n.take s.consumer none }
    | _ => none

/-- One step. -/
def step (s : State P M C) : Action → Option (State P M C)
  | .produce i => s.producers[i]?.bind fun p => produce n s i p.1 p.2
  | .consume => (n.awaits s.consumer).bind fun i => s.producers[i]?.bind (consume n s i)

/-- The steps of a schedule. -/
abbrev run : List Action → State P M C → Option (State P M C) := Schedule.run (step n)

/-! ## What is sent, and what becomes of it -/

/-- The producer sends these messages and halts in this state, when none is refused. -/
inductive Sends : P → List M → P → Prop
  | halt {p : P} (h : n.move p = .halt) : Sends p [] p
  | work {p next last : P} {messages : List M} (h : n.move p = .work next)
      (hrest : Sends next messages last) : Sends p messages last
  | send {p next last : P} {message : M} {messages : List M} (h : n.move p = .send message next)
      (hrest : Sends next messages last) : Sends p (message :: messages) last

/-- The consumer ends in a state on the supplies, and has met the ends of these. -/
inductive Drains : List (List M) → C → List ℕ → C → Prop
  | ended {supplies : List (List M)} {c : C} (h : n.awaits c = none) : Drains supplies c [] c
  | next {supplies : List (List M)} {c c' : C} {i : ℕ} {message : M} {supply : List M} {met : List ℕ}
      (h : n.awaits c = some i) (hi : supplies[i]? = some (message :: supply))
      (hrest : Drains (supplies.set i supply) (n.take c (some message)) met c') :
      Drains supplies c met c'
  | met {supplies : List (List M)} {c c' : C} {i : ℕ} {met : List ℕ} (h : n.awaits c = some i)
      (hi : supplies[i]? = some []) (hrest : Drains supplies (n.take c none) met c') :
      Drains supplies c (i :: met) c'

variable {n}

/-- A consumer ends in one way only. -/
theorem Drains.unique {supplies : List (List M)} {c c' c'' : C} {met met' : List ℕ}
    (h : Drains n supplies c met c') (h' : Drains n supplies c met' c'') : met = met' ∧ c' = c'' := by
  induction h generalizing met' with
  | ended hended =>
    cases h' with
    | ended => exact ⟨rfl, rfl⟩
    | next hawaits => rw [hended] at hawaits; cases hawaits
    | met hawaits => rw [hended] at hawaits; cases hawaits
  | next hawaits hi _ ih =>
    cases h' with
    | ended hended => rw [hended] at hawaits; cases hawaits
    | next hawaits' hi' hrest' =>
      obtain rfl := Option.some.inj (hawaits.symm.trans hawaits')
      cases hi.symm.trans hi'
      exact ih hrest'
    | met hawaits' hi' =>
      obtain rfl := Option.some.inj (hawaits.symm.trans hawaits')
      cases hi.symm.trans hi'
  | met hawaits hi _ ih =>
    cases h' with
    | ended hended => rw [hended] at hawaits; cases hawaits
    | next hawaits' hi' =>
      obtain rfl := Option.some.inj (hawaits.symm.trans hawaits')
      cases hi.symm.trans hi'
    | met hawaits' hi' hrest' =>
      obtain rfl := Option.some.inj (hawaits.symm.trans hawaits')
      obtain ⟨rfl, rfl⟩ := ih hrest'
      exact ⟨rfl, rfl⟩

/-! ## Where a run ends -/

/-- The queue and what its producer still sends make up the supply, and the producer halts so. -/
def Supplied (n : Network P M C) (p : P × List M) (supply : List M × P) : Prop :=
  ∃ rest, Sends n p.1 rest supply.2 ∧ supply.1 = p.2 ++ rest

/-- The producers whose ends were met have halted, as they do when nothing is refused. -/
def Halted (n : Network P M C) (supplies : List (List M × P)) (met : List ℕ) (s : State P M C) : Prop :=
  ∀ i ∈ met, ∃ supply, supplies[i]? = some supply ∧ n.move supply.2 = .halt ∧
    s.producers[i]? = some (supply.2, [])

/-- While the consumer goes on, what is ahead of it ends as the run should. -/
def Ahead (n : Network P M C) (supplies : List (List M × P)) (c : C) (s : State P M C) : Prop :=
  ∃ met, Halted n supplies met s ∧
    ((n.awaits s.consumer = none ∧ Drains n (supplies.map Prod.fst) c met s.consumer) ∨
      ∃ ahead, List.Forall₂ (Supplied n) s.producers ahead ∧
        ahead.map Prod.snd = supplies.map Prod.snd ∧
        ∀ more c', Drains n (ahead.map Prod.fst) s.consumer more c' →
          Drains n (supplies.map Prod.fst) c (met ++ more) c')

variable {supplies ahead : List (List M × P)} {met : List ℕ} {c : C} {s s' : State P M C}

theorem forall₂_getElem? {α β : Type} {R : α → β → Prop} {l : List α} {l' : List β}
    (h : List.Forall₂ R l l') {i : ℕ} {a : α} (ha : l[i]? = some a) :
    ∃ b, l'[i]? = some b ∧ R a b := by
  induction h generalizing i with
  | nil => cases ha
  | cons hab _ ih =>
    cases i with
    | zero => exact ⟨_, rfl, Option.some.inj ha ▸ hab⟩
    | succ i => exact ih ha

theorem forall₂_set {α β : Type} {R : α → β → Prop} {l : List α} {l' : List β}
    (h : List.Forall₂ R l l') {a : α} {b : β} (hab : R a b) (i : ℕ) :
    List.Forall₂ R (l.set i a) (l'.set i b) := by
  induction h generalizing i with
  | nil => exact .nil
  | cons hcd hrest ih =>
    cases i with
    | zero => exact .cons hab hrest
    | succ i => exact .cons hcd (ih i)

/-- A supply that is not touched stays where it is. -/
theorem set_getElem? {α : Type} {l : List α} {i : ℕ} {a : α} (h : l[i]? = some a) :
    l.set i a = l := by
  obtain ⟨hi, rfl⟩ := List.getElem?_eq_some_iff.mp h
  exact List.set_getElem_self hi

/-- A producer that has halted takes no step, and those that have stay so. -/
theorem Halted.set (h : Halted n supplies met s) {i : ℕ} {p q : P × List M}
    (hi : s.producers[i]? = some p) (hlive : n.move p.1 = .halt → p.2 ≠ []) (c' : C) :
    Halted n supplies met ⟨s.producers.set i q, c'⟩ := by
  intro j hj
  obtain ⟨supply, hsupply, hhalt, hproducer⟩ := h j hj
  refine ⟨supply, hsupply, hhalt, ?_⟩
  rw [List.getElem?_set_ne ?_]
  · exact hproducer
  · rintro rfl
    obtain rfl := Option.some.inj (hi.symm.trans hproducer)
    exact hlive hhalt rfl

/-- A producer's step leaves its supply as it was. -/
theorem produce_ahead {i : ℕ} {p : P} {queue : List M} (hi : s.producers[i]? = some (p, queue))
    (h : Ahead n supplies c s) (hstep : produce n s i p queue = some s') :
    Ahead n supplies c s' := by
  obtain ⟨met, hhalted, h⟩ := h
  unfold produce at hstep
  have hstays : n.move p ≠ .halt → ∀ q, Halted n supplies met { s with producers := s.producers.set i q } :=
    fun hlive q => hhalted.set hi (fun hhalt => absurd hhalt hlive) s.consumer
  rcases h with ⟨hended, hdrains⟩ | ⟨ahead, hahead, hlasts, hdrains⟩
  · -- nothing that is sent is taken any more
    split at hstep
    · rename_i hmove
      cases hstep
      exact ⟨met, hstays (by rw [hmove]; exact nofun) _, Or.inl ⟨hended, hdrains⟩⟩
    · rename_i hmove
      rw [if_pos hended] at hstep
      cases hstep
      exact ⟨met, hstays (by rw [hmove]; exact nofun) _, Or.inl ⟨hended, hdrains⟩⟩
    · cases hstep
  obtain ⟨⟨supply, last⟩, hsupply, rest, hsends, hrest⟩ := forall₂_getElem? hahead hi
  have hkept : n.move p ≠ .halt → ∀ (p' : P) (queue' : List M), Supplied n (p', queue') (supply, last) →
      Ahead n supplies c { s with producers := s.producers.set i (p', queue') } := by
    intro hlive p' queue' hsupplied
    refine ⟨met, hstays hlive _, Or.inr ⟨ahead, ?_, hlasts, hdrains⟩⟩
    rw [← set_getElem? hsupply]
    exact forall₂_set hahead hsupplied i
  split at hstep
  · rename_i next hmove
    cases hstep
    cases hsends with
    | halt h => rw [hmove] at h; cases h
    | work h hsends =>
      rw [hmove] at h
      cases h
      exact hkept (by rw [hmove]; exact nofun) _ _ ⟨rest, hsends, hrest⟩
    | send h => rw [hmove] at h; cases h
  · rename_i message next hmove
    split_ifs at hstep with hended hroom
    · cases hstep
      refine ⟨met, hstays (by rw [hmove]; exact nofun) _, Or.inl ⟨hended, ?_⟩⟩
      have hends := hdrains _ _ (.ended hended)
      rw [List.append_nil] at hends
      exact hends
    · cases hstep
      cases hsends with
      | halt h => rw [hmove] at h; cases h
      | work h => rw [hmove] at h; cases h
      | send h hsends =>
        rw [hmove] at h
        cases h
        refine hkept (by rw [hmove]; exact nofun) _ _ ⟨_, hsends, ?_⟩
        rw [hrest, List.append_assoc]
        rfl
  · cases hstep

/-- The consumer's step takes the head of the supply. -/
theorem consume_ahead {i : ℕ} {p : P × List M} (hawaits : n.awaits s.consumer = some i)
    (hi : s.producers[i]? = some p) (h : Ahead n supplies c s)
    (hstep : consume n s i p = some s') : Ahead n supplies c s' := by
  obtain ⟨met, hhalted, ⟨hended, -⟩ | ⟨ahead, hahead, hlasts, hdrains⟩⟩ := h
  · rw [hended] at hawaits; cases hawaits
  obtain ⟨p, queue⟩ := p
  obtain ⟨⟨supply, last⟩, hsupply, rest, hsends, hrest⟩ := forall₂_getElem? hahead hi
  simp only at hsends hrest
  have hfst : (ahead.map Prod.fst)[i]? = some supply := by
    rw [List.getElem?_map, hsupply]
    rfl
  cases queue with
  | cons message queue =>
    cases hstep
    have hs : Supplied n (p, queue) (queue ++ rest, last) := ⟨rest, hsends, rfl⟩
    refine ⟨met, hhalted.set hi (fun _ => nofun) _, Or.inr
      ⟨ahead.set i (queue ++ rest, last), forall₂_set hahead hs i, ?_, fun more c' hc' => ?_⟩⟩
    · rw [← hlasts, List.map_set]
      refine set_getElem? ?_
      rw [List.getElem?_map, hsupply]
      rfl
    · rw [hrest] at hfst
      refine hdrains more c' (.next hawaits hfst ?_)
      rw [List.map_set] at hc'
      exact hc'
  | nil =>
    rw [consume] at hstep
    split at hstep
    · rename_i hmove
      cases hstep
      obtain ⟨rfl, rfl⟩ : rest = [] ∧ last = p := by
        cases hsends with
        | halt => exact ⟨rfl, rfl⟩
        | work h => rw [hmove] at h; cases h
        | send h => rw [hmove] at h; cases h
      obtain ⟨supply', hsupply', hlast⟩ : ∃ supply', supplies[i]? = some supply' ∧ supply'.2 = last := by
        have hget : (supplies.map Prod.snd)[i]? = some last := by
          rw [← hlasts, List.getElem?_map, hsupply]
          rfl
        rw [List.getElem?_map] at hget
        exact Option.map_eq_some_iff.mp hget
      refine ⟨met ++ [i], ?_, Or.inr ⟨ahead, hahead, hlasts, fun more c' hc' => ?_⟩⟩
      · intro j hj
        rcases List.mem_append.mp hj with hj | hj
        · exact hhalted j hj
        · obtain rfl := List.mem_singleton.mp hj
          exact ⟨supply', hsupply', hlast ▸ hmove, hlast ▸ hi⟩
      · rw [List.append_assoc]
        rw [hrest] at hfst
        exact hdrains _ c' (.met hawaits hfst hc')
    · cases hstep

/-- What a step can do. -/
theorem step_cases {a : Action} (hstep : step n s a = some s') :
    (∃ i p queue, s.producers[i]? = some (p, queue) ∧ produce n s i p queue = some s') ∨
      ∃ i p, n.awaits s.consumer = some i ∧ s.producers[i]? = some p ∧
        consume n s i p = some s' := by
  cases a with
  | produce i =>
    obtain ⟨⟨p, queue⟩, hi, hstep⟩ := Option.bind_eq_some_iff.mp hstep
    exact Or.inl ⟨i, p, queue, hi, hstep⟩
  | consume =>
    obtain ⟨i, hawaits, hstep⟩ := Option.bind_eq_some_iff.mp hstep
    obtain ⟨p, hi, hstep⟩ := Option.bind_eq_some_iff.mp hstep
    exact Or.inr ⟨i, p, hawaits, hi, hstep⟩

theorem keeps_ahead : Schedule.Keeps (step n) (Ahead n supplies c) := by
  intro s s' a h hstep
  obtain ⟨i, p, queue, hi, hstep⟩ | ⟨i, p, hawaits, hi, hstep⟩ := step_cases hstep
  · exact produce_ahead hi h hstep
  · exact consume_ahead hawaits hi h hstep

/-- **A consumer that has ended** has ended as it does on the supplies, under every schedule, and
    the producers whose ends it has met have halted. -/
theorem run_drains {producers : List P}
    (hsends : List.Forall₂ (fun p supply => Sends n p supply.1 supply.2) producers supplies)
    {schedule : List Action} (hrun : run n schedule (spawn producers c) = some s)
    (hended : n.awaits s.consumer = none) :
    ∃ met, Drains n (supplies.map Prod.fst) c met s.consumer ∧ Halted n supplies met s := by
  have hspawn : Ahead n supplies c (spawn producers c) := by
    refine ⟨[], fun _ h => absurd h List.not_mem_nil, Or.inr ⟨supplies, ?_, rfl, fun _ _ h => h⟩⟩
    unfold spawn
    rw [List.forall₂_map_left_iff]
    exact hsends.imp fun _ supply h => ⟨supply.1, h, rfl⟩
  obtain ⟨met, hhalted, ⟨-, h⟩ | ⟨ahead, -, -, h⟩⟩ := keeps_ahead.run hspawn hrun
  · exact ⟨met, h, hhalted⟩
  · have hends := h _ _ (.ended hended)
    rw [List.append_nil] at hends
    exact ⟨met, hends, hhalted⟩

/-! ## Invariants -/

/-- The producers keep `I`, and `R` once a message of theirs was refused, and what they send before
    is in `J`. -/
structure Network.Keeps (n : Network P M C) (I R : P → Prop) (J : M → Prop) : Prop where
  work : ∀ p next, n.move p = .work next → (I p → I next) ∧ (R p → R next)
  send : ∀ p message next, n.move p = .send message next →
    (I p → I next ∧ R (n.refused p) ∧ J message) ∧ (R p → R (n.refused p))

/-- The producer is in `I`, or in `R` behind the end of the consumer, and its queue holds messages
    of `J`, no more than it may. -/
structure Holds (n : Network P M C) (I R : P → Prop) (J : M → Prop) (c : C) (p : P)
    (queue : List M) : Prop where
  producer : I p ∨ n.awaits c = none ∧ R p
  messages : ∀ message ∈ queue, J message
  depth : queue.length ≤ n.depth

/-- Every producer does so. -/
def Sound (n : Network P M C) (I R : P → Prop) (J : M → Prop) (s : State P M C) : Prop :=
  ∀ p queue, (p, queue) ∈ s.producers → Holds n I R J s.consumer p queue

section keeps

variable {I R : P → Prop} {J : M → Prop}

theorem Sound.set (h : Sound n I R J s) {p : P} {queue : List M} {c : C}
    (hc : n.awaits s.consumer = none → n.awaits c = none) (hp : Holds n I R J c p queue) (i : ℕ) :
    Sound n I R J ⟨s.producers.set i (p, queue), c⟩ := by
  intro q queue' hq
  rcases List.mem_or_eq_of_mem_set hq with hq | heq
  · have hold := h q queue' hq
    exact ⟨hold.producer.imp_right fun hR => ⟨hc hR.1, hR.2⟩, hold.messages, hold.depth⟩
  · cases heq
    exact hp

theorem produce_sound (hkeeps : n.Keeps I R J) {i : ℕ} {p : P} {queue : List M} (h : Sound n I R J s)
    (hi : s.producers[i]? = some (p, queue)) (hstep : produce n s i p queue = some s') :
    Sound n I R J s' := by
  have hp := h _ _ (List.mem_of_getElem? hi)
  unfold produce at hstep
  split at hstep
  · rename_i next hmove
    cases hstep
    obtain ⟨hI, hR⟩ := hkeeps.work p next hmove
    exact h.set id ⟨hp.producer.imp hI fun h => ⟨h.1, hR h.2⟩, hp.messages, hp.depth⟩ i
  · rename_i message next hmove
    obtain ⟨hI, hR⟩ := hkeeps.send p message next hmove
    split_ifs at hstep with hended hroom
    · cases hstep
      refine h.set id ⟨Or.inr ⟨hended, ?_⟩, hp.messages, hp.depth⟩ i
      rcases hp.producer with hp | ⟨-, hp⟩
      · exact (hI hp).2.1
      · exact hR hp
    · cases hstep
      rcases hp.producer with hI' | ⟨hended', -⟩
      swap
      · exact absurd hended' hended
      obtain ⟨hnext, -, hmessage⟩ := hI hI'
      refine h.set id ⟨Or.inl hnext, fun m hm => ?_, ?_⟩ i
      · rcases List.mem_append.mp hm with hm | hm
        · exact hp.messages m hm
        · exact List.mem_singleton.mp hm ▸ hmessage
      · rw [List.length_append, List.length_singleton]
        exact hroom
  · cases hstep

theorem consume_sound {i : ℕ} {p : P × List M} (hawaits : n.awaits s.consumer = some i)
    (h : Sound n I R J s) (hi : s.producers[i]? = some p) (hstep : consume n s i p = some s') :
    Sound n I R J s' := by
  have hgoes : ∀ {c : C}, n.awaits s.consumer = none → n.awaits c = none := fun h => by
    rw [hawaits] at h
    cases h
  have hlive : ∀ {p queue}, Holds n I R J s.consumer p queue → I p := fun hp =>
    hp.producer.resolve_right fun h => by rw [hawaits] at h; cases h.1
  obtain ⟨p, queue⟩ := p
  have hp := h _ _ (List.mem_of_getElem? hi)
  cases queue with
  | cons message queue =>
    cases hstep
    exact h.set hgoes ⟨Or.inl (hlive hp), fun m hm => hp.messages m (List.mem_cons_of_mem _ hm),
      Nat.le_of_succ_le hp.depth⟩ i
  | nil =>
    rw [consume] at hstep
    split at hstep
    · cases hstep
      intro q queue hq
      have hold := h q queue hq
      exact ⟨Or.inl (hlive hold), hold.messages, hold.depth⟩
    · cases hstep

theorem Network.Keeps.sound (hkeeps : n.Keeps I R J) :
    Schedule.Keeps (step n) (Sound n I R J) := by
  intro s s' a h hstep
  obtain ⟨i, p, queue, hi, hstep⟩ | ⟨i, p, hawaits, hi, hstep⟩ := step_cases hstep
  · exact produce_sound hkeeps h hi hstep
  · exact consume_sound hawaits h hi hstep

/-- **An invariant of the producers** and of their messages holds along every run, and no queue
    holds more than it may. -/
theorem run_holds (hkeeps : n.Keeps I R J) {schedule : List Action} (h : Sound n I R J s)
    (hrun : run n schedule s = some s') : Sound n I R J s' :=
  hkeeps.sound.run h hrun

theorem spawn_sound {producers : List P} (h : ∀ p ∈ producers, I p) (c : C) :
    Sound n I R J (spawn producers c) := by
  intro p queue hp
  obtain ⟨q, hq, heq⟩ := List.mem_map.mp hp
  obtain ⟨rfl, rfl⟩ := Prod.mk.inj heq
  exact ⟨Or.inl (h q hq), List.forall_mem_nil _, Nat.zero_le _⟩

end keeps

theorem step_producers {a : Action} (hstep : step n s a = some s') :
    s'.producers.length = s.producers.length := by
  obtain ⟨i, p, queue, hi, hstep⟩ | ⟨i, ⟨p, queue⟩, hawaits, hi, hstep⟩ := step_cases hstep
  · unfold produce at hstep
    split at hstep
    · cases hstep
      exact List.length_set
    · split_ifs at hstep
      · cases hstep
        exact List.length_set
      · cases hstep
        exact List.length_set
    · cases hstep
  · cases queue with
    | cons message queue =>
      cases hstep
      exact List.length_set
    | nil =>
      rw [consume] at hstep
      split at hstep
      · cases hstep
        rfl
      · cases hstep

/-- The queues are those that there were. -/
theorem run_producers {schedule : List Action} (hrun : run n schedule s = some s') :
    s'.producers.length = s.producers.length := by
  have hkeeps : Schedule.Keeps (step n) fun t => t.producers.length = s.producers.length :=
    fun _ _ _ ht hstep => (step_producers hstep).trans ht
  exact hkeeps.run rfl hrun

/-! ## Progress -/

/-- The consumer has ended and every producer has halted. -/
def Finished (n : Network P M C) (s : State P M C) : Prop :=
  n.awaits s.consumer = none ∧ ∀ p ∈ s.producers, n.move p.1 = .halt

/-- **No run is stuck** before its end: an empty queue has room, and one that is not is
    drained. -/
theorem exists_step (hdepth : 0 < n.depth)
    (hin : ∀ i, n.awaits s.consumer = some i → i < s.producers.length)
    (h : ¬ Finished n s) : ∃ a s', step n s a = some s' := by
  rcases hawaits : n.awaits s.consumer with _ | i
  · -- some producer has not halted, and its messages are refused
    have hlive : ∃ p ∈ s.producers, n.move p.1 ≠ .halt := by
      by_contra hall
      push Not at hall
      exact h ⟨hawaits, hall⟩
    obtain ⟨⟨p, queue⟩, hp, hmove⟩ := hlive
    obtain ⟨i, hi⟩ := List.getElem?_of_mem hp
    refine ⟨.produce i, ?_⟩
    unfold step
    simp only [hi, Option.bind_some]
    unfold produce
    rcases hnext : n.move p with next | ⟨message, next⟩ | _
    · exact ⟨_, rfl⟩
    · simp only [if_pos hawaits]
      exact ⟨_, rfl⟩
    · exact absurd hnext hmove
  · obtain ⟨⟨p, queue⟩, hi⟩ : ∃ p, s.producers[i]? = some p :=
      ⟨_, List.getElem?_eq_getElem (hin i hawaits)⟩
    have hconsume : ∀ s', consume n s i (p, queue) = some s' → step n s .consume = some s' := by
      intro s' hs'
      unfold step
      simp only [hawaits, hi, Option.bind_some]
      exact hs'
    have hproduce : ∀ s', produce n s i p queue = some s' → step n s (.produce i) = some s' := by
      intro s' hs'
      unfold step
      simp only [hi, Option.bind_some]
      exact hs'
    cases queue with
    | cons message queue => exact ⟨_, _, hconsume _ rfl⟩
    | nil =>
      unfold consume at hconsume
      unfold produce at hproduce
      rcases hnext : n.move p with next | ⟨message, next⟩ | _
      · simp only [hnext] at hproduce
        exact ⟨_, _, hproduce _ rfl⟩
      · simp only [hnext, hawaits, reduceCtorEq, if_false, List.length_nil, if_pos hdepth] at hproduce
        exact ⟨_, _, hproduce _ rfl⟩
      · simp only [hnext] at hconsume
        exact ⟨_, _, hconsume _ rfl⟩

/-- A bound on how far a producer in `I` is from halting, in a network where a consumer ends behind
    the last message of a producer. -/
structure Network.Ranked (n : Network P M C) (I : P → Prop) (rank : P → ℕ) : Prop where
  work : ∀ p next, I p → n.move p = .work next → rank next < rank p
  send : ∀ p message next, I p → n.move p = .send message next →
    rank next < rank p ∧ rank (n.refused p) < rank p
  ends : ∀ c, n.awaits (n.take c none) = none

/-- How far a run is from its end. -/
def measure (n : Network P M C) (rank : P → ℕ) (s : State P M C) : ℕ :=
  (s.producers.map fun p => 2 * rank p.1 + p.2.length).sum +
    if n.awaits s.consumer = none then 0 else 1

section ranked

variable {I : P → Prop} {J : M → Prop} {rank : P → ℕ}

/-- **Every step** brings a run nearer to its end. -/
theorem step_measure (hr : n.Ranked I rank) (h : Sound n I I J s) {a : Action}
    (hstep : step n s a = some s') : measure n rank s' < measure n rank s := by
  have hsum : ∀ {i : ℕ} {p : P × List M} (p' : P × List M), s.producers[i]? = some p →
      2 * rank p'.1 + p'.2.length < 2 * rank p.1 + p.2.length →
      ((s.producers.set i p').map fun p => 2 * rank p.1 + p.2.length).sum <
        (s.producers.map fun p => 2 * rank p.1 + p.2.length).sum := by
    intro i p p' hi hlt
    have hset := Schedule.sum_set (fun p : P × List M => 2 * rank p.1 + p.2.length) hi p'
    omega
  unfold measure
  obtain ⟨i, p, queue, hi, hstep⟩ | ⟨i, p, hawaits, hi, hstep⟩ := step_cases hstep
  · have hp : I p := (h _ _ (List.mem_of_getElem? hi)).producer.elim id And.right
    unfold produce at hstep
    split at hstep
    · rename_i next hmove
      cases hstep
      have hlt := hr.work p next hp hmove
      exact Nat.add_lt_add_right (hsum _ hi (by simp only; omega)) _
    · rename_i message next hmove
      have hlt := hr.send p message next hp hmove
      split_ifs at hstep
      · cases hstep
        exact Nat.add_lt_add_right (hsum _ hi (by simp only; omega)) _
      · cases hstep
        refine Nat.add_lt_add_right (hsum _ hi ?_) _
        simp only [List.length_append, List.length_singleton]
        omega
    · cases hstep
  · obtain ⟨p, queue⟩ := p
    rw [if_neg (by rw [hawaits]; simp : ¬ n.awaits s.consumer = none)]
    cases queue with
    | cons message queue =>
      cases hstep
      have hlt := hsum (p, queue) hi (by simp only [List.length_cons]; omega)
      simp only
      split_ifs <;> omega
    | nil =>
      rw [consume] at hstep
      split at hstep
      · cases hstep
        simp only [hr.ends, if_true]
        omega
      · cases hstep

/-- A network with ranks ends. -/
theorem Network.Ranked.ranked (hkeeps : n.Keeps I I J) (hr : n.Ranked I rank) :
    Schedule.Ranked (step n) (Sound n I I J) (measure n rank) :=
  ⟨hkeeps.sound, fun _ _ _ h hstep => step_measure hr h hstep⟩

/-- **A run has no more steps** than its start is away from the end. -/
theorem run_length (hkeeps : n.Keeps I I J) (hr : n.Ranked I rank) (h : Sound n I I J s)
    {schedule : List Action} (hrun : run n schedule s = some s') :
    schedule.length ≤ measure n rank s :=
  Nat.le_of_add_right_le ((hr.ranked hkeeps).run_length h hrun)

/-- **Every run can be carried to its end.** -/
theorem exists_finished (hdepth : 0 < n.depth) (hkeeps : n.Keeps I I J) (hr : n.Ranked I rank)
    (hin : ∀ c i, n.awaits c = some i → i < s.producers.length) (h : Sound n I I J s) :
    ∃ schedule s', run n schedule s = some s' ∧ Finished n s' := by
  have hranked : Schedule.Ranked (step n)
      (fun t => Sound n I I J t ∧ t.producers.length = s.producers.length) (measure n rank) :=
    ⟨fun _ _ _ ht hstep => ⟨hkeeps.sound ht.1 hstep, (step_producers hstep).trans ht.2⟩,
      fun _ _ _ ht hstep => step_measure hr ht.1 hstep⟩
  exact hranked.exists_end (fun t ht => exists_step hdepth fun i hi => ht.2 ▸ hin _ i hi) ⟨h, rfl⟩

end ranked

end Channels
