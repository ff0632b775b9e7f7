import EspNowEdhoc.Device.Invariant

/-!
# Two boards and the air between them

* `Board`: a device with its configuration and receive queue. `Pair`: a board on each side.
* `Act`: a task step of one board, or the arrival of a frame at its callback: a copy of a frame the
  other board has sent (so frames are lost, duplicated and reordered), or one of a third station.
* **`inv_pair`**, **`grows_pair`**: the invariants of both boards along a run.
* `EncryptedDelivery`: what the driver promises about encrypted frames.
-/

set_option autoImplicit false

namespace EspNowEdhoc

open Runs

/-! ## The model -/

/-- The two boards. -/
inductive Side
  | a | b
  deriving DecidableEq, Repr

def Side.other : Side → Side
  | .a => .b
  | .b => .a

variable (L : Lakers)

/-- A board between two steps. -/
structure Board where
  cfg : Config
  dev : Device L
  rxQueue : RxQueue

/-- A board on each side. -/
abbrev Pair : Type := Side → Board L

/-- What can happen next. -/
inductive Act
  | startCheck (x : Side) (tick : UInt32) (env : Env L)
  /-- The receive step of the task. -/
  | poll (x : Side) (env : Env L)
  | delayOver (x : Side) (env : Env L)
  /-- The `n`-th frame sent by the other board arrives. -/
  | deliver (x : Side) (n : ℕ)
  /-- A frame of a third station arrives. -/
  | inject (x : Side) (src : Mac) (data : List UInt8)

variable {L}

def Act.side : Act L → Side
  | .startCheck x _ _ | .poll x _ | .delayOver x _ | .deliver x _ | .inject x _ _ => x

namespace Board

def take (b : Board L) (t : TaskStep L) : Board L := { b with dev := b.dev.step b.cfg t }

/-- The receive step of `app_task`, until the handler returns or enters a `vTaskDelay`. -/
def poll (b : Board L) (env : Env L) : Board L :=
  if b.dev.pc = .loop then
    match espnowTransportRecv b.rxQueue with
    | none => b
    | some (rx, queue) =>
      match parsedMsg rx with
      | none => { b with rxQueue := queue }
      | some msg => { b.take (.input (.received msg env)) with rxQueue := queue }
  else b

/-- A frame arrives at `espnow_recv_cb`. -/
def arrive (b : Board L) (src : Mac) (data : List UInt8) : Board L :=
  { b with rxQueue := espnowRecvCb (some (some src)) (some data) data.length b.rxQueue }

/-- A board that has just booted. -/
def Booted (b : Board L) : Prop :=
  b.rxQueue = .empty ∧ ∃ env created bootTick, appMain b.cfg env created bootTick = some b.dev

end Board

namespace Pair

/-- The acting board afterwards. -/
def boardAfter (s : Pair L) : Act L → Board L
  | .startCheck x tick env => (s x).take (.input (.startCheck tick env))
  | .poll x env => (s x).poll env
  | .delayOver x env => (s x).take (.delayOver env)
  | .deliver x n =>
    match (s x.other).dev.sentFrames[n]? with
    | none => s x
    | some f => (s x).arrive (s x.other).cfg.ownMac f.data
  | .inject x src data => (s x).arrive src data

/-- One act. -/
def step (s : Pair L) (act : Act L) : Pair L := Function.update s act.side (s.boardAfter act)

theorem step_self (s : Pair L) (act : Act L) : s.step act act.side = s.boardAfter act :=
  Function.update_self ..

theorem step_of_ne (s : Pair L) (act : Act L) {x : Side} (h : x ≠ act.side) : s.step act x = s x :=
  Function.update_of_ne h ..

end Pair

/-! ## Polling -/

section Poll

variable {b : Board L} {env : Env L}

/-- What the receive step does to a board. -/
inductive Polled (b : Board L) (env : Env L) (b' : Board L) : Prop
  | idle (hb : b' = b) (hempty : b.dev.pc = .loop → b.rxQueue.items = [])
  | rejected (rx : RxPacket) (queue : RxQueue) (hpc : b.dev.pc = .loop)
      (hpop : b.rxQueue.pop = some (rx, queue)) (hmsg : parsedMsg rx = none)
      (hb : b' = { b with rxQueue := queue })
  | handled (rx : RxPacket) (queue : RxQueue) (msg : EdhocTransportMsg) (hpc : b.dev.pc = .loop)
      (hpop : b.rxQueue.pop = some (rx, queue)) (hmsg : parsedMsg rx = some msg)
      (hb : b' = { b with dev := handleReceivedMessage b.cfg env msg b.dev, rxQueue := queue })

theorem polled (b : Board L) (env : Env L) : Polled b env (b.poll env) := by
  unfold Board.poll
  split
  · next hpc =>
    split
    · next hpop => exact .idle rfl fun _ => BoundedQueue.pop_eq_none.mp hpop
    · next rx queue hpop =>
      split
      · next hmsg => exact .rejected rx queue hpc hpop hmsg rfl
      · next msg hmsg =>
        refine .handled rx queue msg hpc hpop hmsg ?_
        simp only [Board.take, Device.step, if_pos hpc]
  · next hpc => exact .idle rfl fun h => absurd h hpc

theorem mem_poll {p : RxPacket} (hp : p ∈ (b.poll env).rxQueue.items) : p ∈ b.rxQueue.items := by
  cases polled b env with
  | idle hb => rwa [hb] at hp
  | rejected rx queue _ hpop _ hb =>
    rw [hb] at hp
    exact BoundedQueue.mem_of_pop hpop hp
  | handled rx queue msg _ hpop _ hb =>
    rw [hb] at hp
    exact BoundedQueue.mem_of_pop hpop hp

theorem mem_arrive {src : Mac} {data : List UInt8} {p : RxPacket}
    (hp : p ∈ (b.arrive src data).rxQueue.items) :
    p ∈ b.rxQueue.items ∨ p = rxPacket src data data.length := by
  rcases mem_espnowRecvCb hp with h | ⟨src', bytes, hsrc, hbytes, -, -, h⟩
  · exact .inl h
  · cases hsrc
    cases hbytes
    exact .inr h

end Poll

/-! ## The invariants of both boards -/

section Invariants

variable {s s₀ : Pair L}

theorem next_poll {b : Board L} (h : Inv b.cfg b.dev) (env : Env L) :
    (b.poll env).cfg = b.cfg ∧ Next b.cfg b.dev (b.poll env).dev := by
  cases polled b env with
  | idle hb => rw [hb]; exact ⟨rfl, .refl h⟩
  | rejected rx queue _ _ _ hb => rw [hb]; exact ⟨rfl, .refl h⟩
  | handled rx queue msg hpc _ _ hb =>
    rw [hb]
    exact ⟨rfl, next_handleReceivedMessage env h hpc msg⟩

/-- **Every act is a step of the task, or leaves the device alone.** -/
theorem next_boardAfter (act : Act L) (h : Inv (s act.side).cfg (s act.side).dev) :
    (s.boardAfter act).cfg = (s act.side).cfg ∧
      Next (s act.side).cfg (s act.side).dev (s.boardAfter act).dev := by
  cases act with
  | startCheck x tick env => exact ⟨rfl, next_step h (.input (.startCheck tick env))⟩
  | poll x env => exact next_poll h env
  | delayOver x env => exact ⟨rfl, next_step h (.delayOver env)⟩
  | deliver x n =>
    simp only [Pair.boardAfter]
    split
    · exact ⟨rfl, .refl h⟩
    · exact ⟨rfl, .refl h⟩
  | inject x src data => exact ⟨rfl, .refl h⟩

def PairInv (s : Pair L) : Prop := ∀ x, Inv (s x).cfg (s x).dev

/-- Neither board takes anything back or changes its configuration. -/
def PairGrows (s s' : Pair L) : Prop :=
  ∀ x, (s' x).cfg = (s x).cfg ∧ Grows (s x).cfg (s x).dev (s' x).dev

theorem PairGrows.refl (s : Pair L) : PairGrows s s := fun _ => ⟨rfl, .refl _⟩

theorem PairGrows.trans {s' s'' : Pair L} (h : PairGrows s s') (h' : PairGrows s' s'') :
    PairGrows s s'' := fun x =>
  ⟨(h' x).1.trans (h x).1, (h x).2.trans (by rw [← (h x).1]; exact (h' x).2)⟩

theorem pair_step (h : PairInv s) (act : Act L) :
    PairInv (s.step act) ∧ PairGrows s (s.step act) := by
  have hnext (x : Side) : (s.step act x).cfg = (s x).cfg ∧
      Next (s x).cfg (s x).dev (s.step act x).dev := by
    by_cases hx : x = act.side
    · subst hx
      rw [Pair.step_self]
      exact next_boardAfter act (h _)
    · rw [Pair.step_of_ne s act hx]
      exact ⟨rfl, .refl (h x)⟩
  exact ⟨fun x => by rw [(hnext x).1]; exact (hnext x).2.inv,
    fun x => ⟨(hnext x).1, (hnext x).2.grows⟩⟩

theorem inv_booted {b : Board L} (h : b.Booted) : Inv b.cfg b.dev := by
  obtain ⟨-, env, created, bootTick, hdev⟩ := h
  exact inv_appMain hdev

theorem inv_pair (hboot : ∀ x, (s₀ x).Booted) (acts : List (Act L)) :
    PairInv (run Pair.step s₀ acts) :=
  run_inv (G := fun _ _ => True) (fun x => inv_booted (hboot x))
    (fun _ act h _ => (pair_step h act).1) (allowed_of_forall fun _ _ _ => trivial)

theorem grows_pair (h : PairInv s) (acts : List (Act L)) : PairGrows s (run Pair.step s acts) :=
  run_rel (G := fun _ _ => True) (I := PairInv) (R := PairGrows) PairGrows.refl
    (fun _ _ _ => PairGrows.trans) h (fun _ act h _ => pair_step h act)
    (allowed_of_forall fun _ _ _ => trivial)

end Invariants

/-! ## Sample boards -/

def Pair.sample : Pair Lakers.sample
  | .a => ⟨Config.sample .initiator, Device.sample .initiator, .empty⟩
  | .b => ⟨Config.sample .responder, Device.sample .responder, .empty⟩

theorem booted_sample (x : Side) : (Pair.sample x).Booted := by
  cases x
  · exact ⟨rfl, _, _, _, appMain_sample .initiator⟩
  · exact ⟨rfl, _, _, _, appMain_sample .responder⟩

/-- A pairing without loss. -/
def sampleActs : List (Act Lakers.sample) :=
  [.startCheck .a 2000 .sample, .deliver .b 0, .poll .b .sample, .deliver .a 0, .poll .a .sample,
    .deliver .b 1, .poll .b .sample, .delayOver .b .sample, .deliver .a 1, .poll .a .sample,
    .delayOver .a .sample, .deliver .b 2, .poll .b .sample, .deliver .a 2, .poll .a .sample]

/-! ## Configurations and the driver -/

/-- An initiator and a responder that are configured for each other. -/
structure Mutual (ci cr : Config) : Prop where
  initiator : ci.role = .initiator
  responder : cr.role = .responder
  peer : ci.peerMac = cr.ownMac ∧ cr.peerMac = ci.ownMac
  channel : ci.espnowChannel = cr.espnowChannel
  uncorrupted : ci.corruptLmk = false ∧ cr.corruptLmk = false

instance (ci cr : Config) : Decidable (Mutual ci cr) :=
  decidable_of_iff (ci.role = .initiator ∧ cr.role = .responder ∧
    (ci.peerMac = cr.ownMac ∧ cr.peerMac = ci.ownMac) ∧ ci.espnowChannel = cr.espnowChannel ∧
    ci.corruptLmk = false ∧ cr.corruptLmk = false)
    ⟨fun ⟨h₁, h₂, h₃, h₄, h₅⟩ => ⟨h₁, h₂, h₃, h₄, h₅⟩,
      fun ⟨h₁, h₂, h₃, h₄, h₅⟩ => ⟨h₁, h₂, h₃, h₄, h₅⟩⟩

theorem Mutual.exporterContext {ci cr : Config} (h : Mutual ci cr) :
    ci.exporterContext = cr.exporterContext := by
  obtain ⟨hi, hr, ⟨hp, hp'⟩, hch, -⟩ := h
  rcases ci with ⟨_, _, _, _, _, _⟩
  rcases cr with ⟨_, _, _, _, _, _⟩
  cases hi; cases hr; cases hp; cases hp'; cases hch
  rfl

theorem Mutual.lmkToInstall {ci cr : Config} (h : Mutual ci cr) (lmk : Lmk) :
    ci.lmkToInstall lmk = lmk ∧ cr.lmkToInstall lmk = lmk := by
  simp [Config.lmkToInstall, h.uncorrupted.1, h.uncorrupted.2]

theorem Mutual.either {ci cr cfg : Config} (h : Mutual ci cr) (hcfg : cfg = ci ∨ cfg = cr) :
    cfg.exporterContext = ci.exporterContext ∧ cfg.espnowChannel = ci.espnowChannel ∧
      ∀ lmk, cfg.lmkToInstall lmk = lmk := by
  rcases hcfg with rfl | rfl
  · exact ⟨rfl, rfl, fun lmk => (h.lmkToInstall lmk).1⟩
  · exact ⟨h.exporterContext.symm, h.channel.symm, fun lmk => (h.lmkToInstall lmk).2⟩

/-- The driver hands over an encrypted frame only if, on arrival, the receiver's entry for the
sender is encrypted with the same LMK. -/
def EncryptedDelivery (s : Pair L) : Act L → Prop
  | .deliver x n =>
    match (s x.other).dev.sentFrames[n]? with
    | none => True
    | some f => f.lmk?.isSome →
      ((s x).dev.entry (s x.other).cfg.ownMac).bind PeerInfo.lmk? = f.lmk?
  | _ => True

instance (s : Pair L) : ∀ act : Act L, Decidable (EncryptedDelivery s act)
  | .deliver x n =>
    match h : (s x.other).dev.sentFrames[n]? with
    | none => .isTrue (by simp only [EncryptedDelivery, h])
    | some f =>
      decidable_of_iff (f.lmk?.isSome →
        ((s x).dev.entry (s x.other).cfg.ownMac).bind PeerInfo.lmk? = f.lmk?)
        (by simp only [EncryptedDelivery, h])
  | .startCheck .. | .poll .. | .delayOver .. | .inject .. => .isTrue trivial

end EspNowEdhoc
