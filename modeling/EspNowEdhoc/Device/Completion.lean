import EspNowEdhoc.Device.Invariant

/-!
# Completion implies the whole handshake

* `map_frameType_sentFrames`, `map_type_acceptedMsgs`: the types sent and accepted are those of the
  milestones.
* **`acceptedMsgs_run`**: a board accepts only what it is given, in the order it is given.
* **`handshake_before_completion`**: the frames sent are a prefix of the script of the role, and a
  board in `COMPLETE` has done its whole completion script.
-/

set_option autoImplicit false

namespace EspNowEdhoc

open Runs Script

variable {L : Lakers}

/-! ## Frames and messages -/

/-- The frame types a role sends, in order. -/
def frameScript : Role → List MsgType
  | .initiator => [.m1, .m3, .keyTest]
  | .responder => [.m2, .ack, .keyTestAck]

/-- The message types a role accepts, in order. -/
def acceptScript : Role → List MsgType
  | .initiator => [.m2, .ack, .keyTestAck]
  | .responder => [.m1, .m3, .keyTest]

def Event.accepted? : Event L → Option EdhocTransportMsg
  | .accepted msg => some msg
  | _ => none

def Milestone.sent? : Milestone → Option MsgType
  | .sent t => some t
  | _ => none

def Milestone.accepted? : Milestone → Option MsgType
  | .accepted t => some t
  | _ => none

/-- The messages the handler has accepted, oldest first. -/
def Device.acceptedMsgs (d : Device L) : List EdhocTransportMsg := d.trace.filterMap Event.accepted?

/-- The messages given to the handler in a run, oldest first. -/
def receivedMsgs (steps : List (TaskStep L)) : List EdhocTransportMsg :=
  steps.filterMap fun | .input (.received msg _) => some msg | _ => none

theorem filterMap_milestone {α : Type} {es : List (Event L)} {f : Event L → Option α}
    {g : Milestone → Option MsgType} {type : α → UInt8}
    (h : ∀ e ∈ es, (e.milestone?.bind g).map MsgType.code = (f e).map type) :
    ((es.filterMap Event.milestone?).filterMap g).map MsgType.code = (es.filterMap f).map type := by
  rw [List.filterMap_filterMap, List.map_filterMap, List.map_filterMap]
  exact List.filterMap_congr h

section Types

variable {cfg : Config} {d : Device L} {left : Option (List Milestone)}

theorem map_frameType_sentFrames (h : At cfg left d) :
    d.sentFrames.map (frameType ·.data) =
      (d.milestones.filterMap Milestone.sent?).map MsgType.code := by
  refine (filterMap_milestone fun e he => ?_).symm
  cases e with
  | sent f =>
    obtain ⟨-, -, -, t, htype, -⟩ := h.fits _ he
    simp only [Event.milestone?, htype, MsgType.ofCode?_code]
    rw [Option.map_some, Option.bind_some, Milestone.sent?, Option.map_some, ← htype]
    rfl
  | accepted msg =>
    simp only [Event.milestone?]
    cases MsgType.ofCode? msg.type <;> rfl
  | handshake x input ret =>
    simp only [Event.milestone?]
    split <;> rfl
  | exportLmk ret =>
    simp only [Event.milestone?]
    split <;> rfl
  | installed lmk => rfl

theorem map_type_acceptedMsgs (h : At cfg left d) :
    d.acceptedMsgs.map (·.type) =
      (d.milestones.filterMap Milestone.accepted?).map MsgType.code := by
  refine (filterMap_milestone fun e he => ?_).symm
  cases e with
  | sent f =>
    simp only [Event.milestone?]
    cases MsgType.ofCode? (frameType f.data) <;> rfl
  | accepted msg =>
    obtain ⟨-, t, htype, -⟩ := h.fits _ he
    simp only [Event.milestone?, htype, MsgType.ofCode?_code]
    rw [Option.map_some, Option.bind_some, Event.accepted?, Option.map_some, htype]
    rfl
  | handshake x input ret =>
    simp only [Event.milestone?]
    split <;> rfl
  | exportLmk ret =>
    simp only [Event.milestone?]
    split <;> rfl
  | installed lmk => rfl

end Types

/-! ## A board accepts what it is given -/

/-- From `d` to `d'` the handler accepts some of the messages `got`, in order. -/
def Accepts (got : List EdhocTransportMsg) (d d' : Device L) : Prop :=
  ∃ l, d'.acceptedMsgs = d.acceptedMsgs ++ l ∧ l.Sublist got

section Accepts

variable (cfg : Config) (env : Env L) {got : List EdhocTransportMsg} {d d' : Device L}

theorem Accepts.of_eq (h : d'.acceptedMsgs = d.acceptedMsgs) : Accepts got d d' :=
  ⟨[], by rw [h, List.append_nil], List.nil_sublist _⟩

theorem acceptedMsgs_transmit (t : MsgType) (seq : UInt16) (payload : Option (List UInt8)) (len : ℕ)
    (d : Device L) : (transmit cfg env t seq payload len d).2.acceptedMsgs = d.acceptedMsgs := by
  unfold transmit
  split
  · simp [Device.acceptedMsgs, Device.log, Event.accepted?]
  · rfl

theorem acceptedMsgs_deriveAndInstallLmk (d : Device L) :
    (deriveAndInstallLmk cfg env d).2.acceptedMsgs = d.acceptedMsgs := by
  obtain ⟨err, n', es, hend, heq⟩ := deriveAndInstallLmk_eq cfg env d.session d.espNow
  have hes : es.filterMap Event.accepted? = [] := List.filterMap_eq_nil_iff.mpr fun e he => by
    rcases hend.mem e he with ⟨ret, rfl⟩ | ⟨lmk, rfl⟩ <;> rfl
  rw [heq d rfl rfl, Device.acceptedMsgs, List.filterMap_append, hes, List.append_nil]
  rfl

theorem acceptedMsgs_log_accepted (d : Device L) (msg : EdhocTransportMsg) :
    (d.log (.accepted msg)).acceptedMsgs = d.acceptedMsgs ++ [msg] := by
  simp [Device.acceptedMsgs, Device.log, Event.accepted?]

theorem accepts_send {d₀ : Device L} (h : Accepts got d₀ d) (t : MsgType) (seq : UInt16)
    (payload : Option (List UInt8)) (len : ℕ) {next : Device L → Device L}
    (hnext : ∀ d, (next d).acceptedMsgs = d.acceptedMsgs) :
    Accepts got d₀ (espErrorCheck (transmit cfg env t seq payload len d) next) := by
  obtain ⟨l, heq, hl⟩ := h
  have hsent := (acceptedMsgs_transmit cfg env t seq payload len d).trans heq
  unfold espErrorCheck
  split
  · exact ⟨l, (hnext _).trans hsent, hl⟩
  · exact ⟨l, hsent, hl⟩

theorem accepts_exchange (x : Handshake) (input : List UInt8) (ret : FfiRet L)
    (accepted : List (Event L)) (hacc : (accepted.filterMap Event.accepted?).Sublist got)
    (t : MsgType) (seq : UInt16) (payload : Option (List UInt8)) (len : ℕ)
    {onFail next : Device L → Device L} (hfail : ∀ d, (onFail d).acceptedMsgs = d.acceptedMsgs)
    (hnext : ∀ d, (next d).acceptedMsgs = d.acceptedMsgs) :
    Accepts got d
      (exchange x input ret accepted onFail (transmit cfg env t seq payload len) next d) := by
  have hcalled : (d.called x input ret).acceptedMsgs = d.acceptedMsgs := by
    simp [Device.acceptedMsgs, Device.called, Event.accepted?]
  unfold exchange
  dsimp only
  split
  · exact .of_eq ((hfail _).trans hcalled)
  · refine accepts_send cfg env ⟨_, ?_, hacc⟩ t seq payload len hnext
    rw [← hcalled, Device.acceptedMsgs, Device.acceptedMsgs, List.filterMap_append]

theorem accepts_startCheck (tick : UInt32) : Accepts got d (startCheck cfg env d tick) := by
  unfold startCheck
  split
  · exact accepts_exchange cfg env .makeMessage1 [] _ [] (List.nil_sublist _) .m1 1 _ _
      (fun _ => rfl) (fun _ => rfl)
  · exact .of_eq rfl

theorem accepts_afterDelay : Accepts got d (afterDelay cfg env d) := by
  unfold afterDelay
  split
  · have hinst := acceptedMsgs_deriveAndInstallLmk cfg env { d with pc := .loop }
    dsimp only
    split <;> exact .of_eq hinst
  · exact accepts_send cfg env (.of_eq rfl) .keyTest _ (some keyTestPayload)
      (keyTestPayload.length - 1) fun _ => rfl
  · exact .of_eq rfl
  · exact .of_eq rfl

theorem accepts_handleReceivedMessage (msg : EdhocTransportMsg) :
    Accepts [msg] d (handleReceivedMessage cfg env msg d) := by
  have hmsg : ([Event.accepted (L := L) msg].filterMap Event.accepted?).Sublist [msg] := .refl _
  have hlog : Accepts [msg] d (d.log (.accepted msg)) :=
    ⟨[msg], acceptedMsgs_log_accepted d msg, .refl _⟩
  cases handled cfg env msg d with
  | rejected _ hd => rw [hd]; exact .of_eq rfl
  | ignored _ _ hd => rw [hd]; exact .of_eq rfl
  | accepted t _ _ _ _ hd =>
    rw [hd]
    cases t with
    | m1 =>
      exact accepts_exchange cfg env .processMessage1 msg.bytes _ _ hmsg .m2 _ _ _ (fun _ => rfl)
        (fun _ => rfl)
    | m2 =>
      exact accepts_exchange cfg env .processMessage2 msg.bytes _ _ hmsg .m3 _ _ _ (fun _ => rfl)
        (fun _ => rfl)
    | m3 =>
      exact accepts_exchange cfg env .processMessage3 msg.bytes _ _ hmsg .ack (msg.seq + 1)
        (some edhocHandshakeAckPayload) (edhocHandshakeAckPayload.length - 1) (fun _ => rfl)
        (fun _ => rfl)
    | ack =>
      dsimp only [onAwaited, onHandshakeAck]
      split
      · exact .of_eq rfl
      · have hinst := acceptedMsgs_deriveAndInstallLmk cfg env (d.log (.accepted msg))
        obtain ⟨l, heq, hl⟩ := hlog
        split <;> exact ⟨l, hinst.trans heq, hl⟩
    | keyTest =>
      dsimp only [onAwaited, onKeyTest]
      split
      · exact .of_eq rfl
      · exact accepts_send cfg env hlog .keyTestAck (msg.seq + 1) (some keyTestAckPayload)
          (keyTestAckPayload.length - 1) fun _ => rfl
    | keyTestAck =>
      dsimp only [onAwaited, onKeyTestAck]
      split
      · exact .of_eq rfl
      · exact hlog

theorem accepts_step (s : TaskStep L) : Accepts (receivedMsgs [s]) d (d.step cfg s) := by
  cases s with
  | delayOver env => exact accepts_afterDelay cfg env
  | input i =>
    cases i with
    | startCheck tick env =>
      simp only [Device.step]
      split
      · exact accepts_startCheck cfg env tick
      · exact .of_eq rfl
    | received msg env =>
      simp only [Device.step]
      split
      · exact accepts_handleReceivedMessage cfg env msg
      · exact .of_eq rfl

/-- **A board accepts only what it is given, in order.** -/
theorem acceptedMsgs_run (hd : d.acceptedMsgs = []) (steps : List (TaskStep L)) :
    (run (Device.step cfg) d steps).acceptedMsgs.Sublist (receivedMsgs steps) := by
  refine run_hist_inv (G := fun _ _ => True)
    (I := fun steps (d : Device L) => d.acceptedMsgs.Sublist (receivedMsgs steps)) ?_ ?_
    (allowed_of_forall fun _ _ _ => trivial)
  · rw [hd]
    exact List.nil_sublist _
  · intro steps d s hsub _
    obtain ⟨l, heq, hl⟩ := accepts_step cfg (d := d) s
    rw [heq, receivedMsgs, List.filterMap_append]
    exact hsub.append hl

end Accepts

/-! ## Completion -/

section Completion

variable {cfg : Config} {d : Device L}

theorem ahead_complete (h : Inv cfg d) (hc : d.state = .complete) :
    ahead cfg.role d.pc d.state d.initiatorStarted = some [] := by
  rw [h.complete hc, hc]
  cases hrole : cfg.role with
  | initiator =>
    rw [h.started hrole (by rw [hc]; decide) (by rw [hc]; decide)]
    rfl
  | responder => rfl

theorem milestones_complete (h : Inv cfg d) (hc : d.state = .complete) :
    d.milestones = completionScript cfg.role := by
  have hf := h.at_ahead.follows
  rw [ahead_complete h hc] at hf
  exact hf.eq_script

/-- **Completion implies the whole handshake, each step once.** At every point of a run the frame
types sent are a prefix of the script of the role. A board in `COMPLETE` has done the milestones of
its role in order, each once, and nothing else; it has accepted exactly the three messages of its
role, in the order it was given them, each with the session identifier and each checked. -/
theorem handshake_before_completion {env₀ : Env L} {created : Bool} {bootTick : UInt32}
    {d₀ : Device L} (h₀ : appMain cfg env₀ created bootTick = some d₀)
    (steps : List (TaskStep L)) :
    let d := run (Device.step cfg) d₀ steps
    d.sentFrames.map (frameType ·.data) <+: (frameScript cfg.role).map MsgType.code ∧
    (d.state = .complete →
      d.milestones = completionScript cfg.role ∧
      d.acceptedMsgs.map (·.type) = (acceptScript cfg.role).map MsgType.code ∧
      d.acceptedMsgs.Sublist (receivedMsgs steps) ∧
      ∀ msg ∈ d.acceptedMsgs, msg.sessionId = edhocSessionId ∧
        ∃ t : MsgType, msg.type = t.code ∧ t.Checked d.trace msg) := by
  have hinv := inv_run (inv_appMain h₀) steps
  have hsub := acceptedMsgs_run cfg (d := d₀) (by
    rw [Device.acceptedMsgs, (appMain_eq_some h₀).2.2.2.1]; rfl) steps
  generalize run (Device.step cfg) d₀ steps = d at hinv hsub
  refine ⟨?_, fun hc => ?_⟩
  · rw [map_frameType_sentFrames hinv.at_ahead]
    have hpre := (hinv.at_ahead.follows.isPrefix.filterMap Milestone.sent?).map MsgType.code
    cases hrole : cfg.role <;> rw [hrole] at hpre <;> exact hpre
  · have hm := milestones_complete hinv hc
    refine ⟨hm, ?_, hsub, fun msg hmsg => ?_⟩
    · rw [map_type_acceptedMsgs hinv.at_ahead, hm]
      cases cfg.role <;> rfl
    · obtain ⟨e, he, heq⟩ := List.mem_filterMap.mp hmsg
      cases e with
      | accepted msg' =>
        cases heq
        exact hinv.at_ahead.fits _ he
      | handshake | exportLmk | sent | installed => cases heq

end Completion

theorem handshake_before_completion_sample :
    (let d := run (Device.step (Config.sample .initiator)) (Device.sample .initiator)
        (sampleSteps .initiator)
     d.state = .complete ∧ d.milestones = completionScript .initiator) ∧
    (let d := run (Device.step (Config.sample .responder)) (Device.sample .responder)
        (sampleSteps .responder)
     d.state = .complete ∧ d.milestones = completionScript .responder) := by
  have hc (role : Role) : (run (Device.step (Config.sample role)) (Device.sample role)
      (sampleSteps role)).state = .complete := by cases role <;> decide
  exact ⟨⟨hc .initiator,
      ((handshake_before_completion (appMain_sample .initiator) _).2 (hc .initiator)).1⟩,
    hc .responder,
    ((handshake_before_completion (appMain_sample .responder) _).2 (hc .responder)).1⟩

end EspNowEdhoc
