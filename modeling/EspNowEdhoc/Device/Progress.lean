import EspNowEdhoc.Device.Dispatch
import EspNowEdhoc.Device.Install
import EspNowEdhoc.Lib.Script

/-!
# What a board has done and what it still has to do

A board is a follower of the completion script of its role. `At cfg left d` says that the session,
the peer table and the trace of `d` are those of a board with `left` still to do (`none` once it has
stopped); it does not read the pairing state.

* `Grows`: what a device never takes back. `Event.Fits`, `At`: the invariant of a position.
* **`At.called`**, `At.accept`, **`At.transmit`**, **`At.install`**: each thing the task does takes
  a board that has it next to the position after it, or stops the board.
-/

set_option autoImplicit false

namespace EspNowEdhoc

open Runs Script

variable {L : Lakers}

/-! ## Milestones -/

/-- The steps of a pairing, as one board sees them. -/
inductive Milestone
  /-- The handshake call returned `OK`. -/
  | handshake (h : Handshake)
  | sent (type : MsgType)
  | accepted (type : MsgType)
  | exported
  | installed
  deriving DecidableEq

/-- The message type of a type byte. -/
def MsgType.ofCode? (code : UInt8) : Option MsgType :=
  [.m1, .m2, .m3, .ack, .keyTest, .keyTestAck].find? (·.code = code)

@[simp] theorem MsgType.ofCode?_code (t : MsgType) : ofCode? t.code = some t := by
  cases t <;> rfl

/-- A message of the encrypted phase. -/
def MsgType.isControl : MsgType → Bool
  | .keyTest | .keyTestAck => true
  | _ => false

/-- The milestone an event is. -/
def Event.milestone? : Event L → Option Milestone
  | .handshake h _ ret => if ret.status = .ok then some (.handshake h) else none
  | .exportLmk ret => if ret.status = .ok then some .exported else none
  | .accepted msg => (MsgType.ofCode? msg.type).map .accepted
  | .sent f => (MsgType.ofCode? (frameType f.data)).map .sent
  | .installed _ => some .installed

namespace Device

def milestones (d : Device L) : List Milestone := d.trace.filterMap Event.milestone?

theorem milestones_log (d : Device L) (e : Event L) :
    (d.log e).milestones = d.milestones ++ e.milestone?.toList := by
  simp only [milestones, log, List.filterMap_append]
  cases h : e.milestone? <;> simp [h]

end Device

/-- The milestones of a completed pairing. -/
def completionScript : Role → List Milestone
  | .initiator =>
    [.handshake .makeMessage1, .sent .m1, .handshake .processMessage2, .accepted .m2, .sent .m3,
      .accepted .ack, .exported, .installed, .sent .keyTest, .accepted .keyTestAck]
  | .responder =>
    [.handshake .processMessage1, .accepted .m1, .sent .m2, .handshake .processMessage3,
      .accepted .m3, .sent .ack, .exported, .installed, .accepted .keyTest, .sent .keyTestAck]

/-- The phase of a session that has the handshake calls of `left` before it. -/
def phaseAt (left : List Milestone) : Phase :=
  (left.findSome? fun | .handshake h => some h.source | _ => none).getD .done

/-! ## The installed key -/

/-- The LMK an entry encrypts with. -/
def PeerInfo.lmk? (e : PeerInfo) : Option Lmk := if e.encrypt then some e.lmk else none

def SentFrame.lmk? (f : SentFrame) : Option Lmk := f.entry.bind PeerInfo.lmk?

/-- The LMK in the entry of `PEER_MAC`, if that entry is encrypted. -/
def Device.lmk? (cfg : Config) (d : Device L) : Option Lmk :=
  (d.entry cfg.peerMac).bind PeerInfo.lmk?

def Config.exporterContext (cfg : Config) : ExporterContext :=
  match cfg.role with
  | .initiator => buildExporterContext cfg.ownMac.toList cfg.peerMac.toList cfg.espnowChannel
      (by simp) (by simp)
  | .responder => buildExporterContext cfg.peerMac.toList cfg.ownMac.toList cfg.espnowChannel
      (by simp) (by simp)

/-! ## What a device never takes back -/

/-- The trace only grows, and a completed session and an installed key stay as they are. -/
structure Grows (cfg : Config) (d d' : Device L) : Prop where
  trace : d.trace <+: d'.trace
  session : d.session.phase? = some .done → d'.session = d.session
  lmk : ∀ lmk, d.lmk? cfg = some lmk → d'.lmk? cfg = some lmk

namespace Grows

variable {cfg : Config} {d d' d'' : Device L}

theorem refl (d : Device L) : Grows cfg d d := ⟨List.prefix_rfl, fun _ => rfl, fun _ h => h⟩

theorem trans (h : Grows cfg d d') (h' : Grows cfg d' d'') : Grows cfg d d'' where
  trace := h.trace.trans h'.trace
  session := fun hd => by
    have heq := h.session hd
    exact (h'.session (by rw [heq]; exact hd)).trans heq
  lmk := fun lmk hl => h'.lmk lmk (h.lmk lmk hl)

theorem of_trace (hs : d'.session = d.session) (hn : d'.espNow.peers = d.espNow.peers)
    (ht : d.trace <+: d'.trace) : Grows cfg d d' where
  trace := ht
  session := fun _ => hs
  lmk := fun lmk hl => by simpa only [Device.lmk?, Device.entry, hn] using hl

theorem log (d : Device L) (e : Event L) : Grows cfg d (d.log e) :=
  .of_trace rfl rfl (List.prefix_append ..)

end Grows

/-! ## The events of a device -/

/-- A handshake call on these bytes has returned `OK`. -/
def Processed (h : Handshake) (input : List UInt8) (trace : List (Event L)) : Prop :=
  ∃ ret, Event.handshake h input ret ∈ trace ∧ ret.status = .ok

theorem bytes_of_payloadIs {msg : EdhocTransportMsg} {s : String}
    (h : payloadIs msg (cString s) = true) : msg.bytes ++ [0] = cString s := by
  obtain ⟨hlen, htake⟩ := of_decide_eq_true h
  rw [EdhocTransportMsg.bytes, hlen, htake, ← List.dropLast_eq_take]
  rw [cString, List.dropLast_concat]

/-- What the handler has checked before it accepts a message of this type: Lakers has accepted the
bytes, or they are the text. -/
def MsgType.Checked (trace : List (Event L)) (msg : EdhocTransportMsg) : MsgType → Prop
  | .m1 => Processed .processMessage1 msg.bytes trace
  | .m2 => Processed .processMessage2 msg.bytes trace
  | .m3 => Processed .processMessage3 msg.bytes trace
  | .ack => msg.bytes ++ [0] = cString "LAKERS_EDHOC_COMPLETE"
  | .keyTest => msg.bytes ++ [0] = cString "ENCRYPTED_KEY_TEST_FROM_INITIATOR"
  | .keyTestAck => msg.bytes ++ [0] = cString "ENCRYPTED_KEY_TEST_ACK_FROM_RESPONDER"

/-- An event of the trace agrees with what the device is now. -/
def Event.Fits (cfg : Config) (d : Device L) : Event L → Prop
  | .handshake h _ ret => ret.status ≠ .wrongState ∧ (ret.status = .ok → h.target = .done →
      d.session.phase? = some .done ∧ ret.session = d.session)
  | .exportLmk ret => ret.status = .ok
  | .accepted msg => msg.sessionId = edhocSessionId ∧
      ∃ t : MsgType, msg.type = t.code ∧ t.Checked d.trace msg
  | .sent f => f.dest = cfg.peerMac ∧ f.entry.isSome ∧ (f.lmk?.isSome → d.lmk? cfg = f.lmk?) ∧
      ∃ t : MsgType, frameType f.data = t.code ∧ f.lmk?.isSome = t.isControl
  | .installed lmk => d.lmk? cfg = some lmk

theorem MsgType.Checked.mono {trace trace' : List (Event L)} {msg : EdhocTransportMsg} {t : MsgType}
    (h : t.Checked trace msg) (ht : trace ⊆ trace') : t.Checked trace' msg := by
  cases t with
  | m1 | m2 | m3 => exact h.imp fun _ hret => ⟨ht hret.1, hret.2⟩
  | ack | keyTest | keyTestAck => exact h

theorem Event.Fits.mono {cfg : Config} {d d' : Device L} {e : Event L} (h : e.Fits cfg d)
    (hg : Grows cfg d d') : e.Fits cfg d' := by
  cases e with
  | handshake x input ret =>
    refine ⟨h.1, fun hok hdone => ?_⟩
    obtain ⟨hphase, hses⟩ := h.2 hok hdone
    rw [hg.session hphase]
    exact ⟨hphase, hses⟩
  | exportLmk ret => exact h
  | accepted msg =>
    obtain ⟨hsid, t, htype, hc⟩ := h
    exact ⟨hsid, t, htype, hc.mono hg.trace.subset⟩
  | sent f =>
    refine ⟨h.1, h.2.1, fun hf => ?_, h.2.2.2⟩
    obtain ⟨lmk, hl⟩ := Option.isSome_iff_exists.mp hf
    rw [hl]
    exact hg.lmk lmk ((h.2.2.1 hf).trans hl)
  | installed lmk => exact hg.lmk lmk h

/-! ## Positions -/

/-- The session, the peer table and the trace of a board with `left` still to do. -/
structure At (cfg : Config) (left : Option (List Milestone)) (d : Device L) : Prop where
  follows : Follows (completionScript cfg.role) d.milestones left
  role_eq : d.session.role? = some cfg.role
  phase : ∀ r, left = some r → d.session.phase? = some (phaseAt r)
  context : d.session.phase? ≠ some .failed →
    d.session.exporterContext? = some cfg.exporterContext
  peers : ∃ e, d.espNow.peers = Function.update (fun _ => none) cfg.peerMac (some e)
  lmk_left : ∀ r, left = some r → ((d.lmk? cfg).isSome ↔ .installed ∉ r)
  lmk_eq : ∀ lmk, d.lmk? cfg = some lmk → ∃ done, d.session.done? = some done ∧
    lmk = cfg.lmkToInstall (exportLmk done cfg.exporterContext)
  lmk_exported : (d.lmk? cfg).isSome → .exported ∈ d.milestones
  fits : ∀ e ∈ d.trace, e.Fits cfg d

namespace At

variable {cfg : Config} {d d' : Device L} {left : Option (List Milestone)} {r : List Milestone}

theorem stop (h : At cfg left d) : At cfg none d :=
  { h with follows := h.follows.stop, phase := nofun, lmk_left := nofun }

theorem congr (h : At cfg left d) (hs : d'.session = d.session) (hn : d'.espNow = d.espNow)
    (ht : d'.trace = d.trace) : At cfg left d' := by
  obtain ⟨_, _, _, _, _, _⟩ := d
  obtain ⟨_, _, _, _, _, _⟩ := d'
  cases hs; cases hn; cases ht
  have hg {a b : Device L} (hs : b.session = a.session) (hn : b.espNow = a.espNow)
      (ht : b.trace = a.trace) : Grows cfg a b :=
    .of_trace hs (by rw [hn]) ⟨[], by rw [List.append_nil, ht]⟩
  exact ⟨h.follows, h.role_eq, h.phase, h.context, h.peers, h.lmk_left, h.lmk_eq, h.lmk_exported,
    fun e he => (h.fits e he).mono (hg rfl rfl rfl)⟩

theorem failPairing (h : At cfg left d) : At cfg left (failPairing d) := h.congr rfl rfl rfl

theorem context_of_done (h : At cfg left d) {done : L.Done} (hdone : d.session.done? = some done) :
    d.session.exporterContext? = some cfg.exporterContext :=
  h.context (by rw [Session.phase?_of_done? hdone]; nofun)

theorem fits_append (h : At cfg left d) (hg : Grows cfg d d') {es : List (Event L)}
    (ht : d'.trace = d.trace ++ es) (hes : ∀ e ∈ es, e.Fits cfg d') :
    ∀ e ∈ d'.trace, e.Fits cfg d' := by
  intro e he
  rw [ht, List.mem_append] at he
  exact he.elim (fun he => (h.fits e he).mono hg) (hes e)

/-! ### Logging -/

theorem log (h : At cfg left d) {e : Event L} (he : e.Fits cfg (d.log e))
    {left' : Option (List Milestone)}
    (hf : Follows (completionScript cfg.role) (d.milestones ++ e.milestone?.toList) left')
    (hphase : ∀ r, left' = some r → d.session.phase? = some (phaseAt r))
    (hlmk : ∀ r, left' = some r → ((d.lmk? cfg).isSome ↔ .installed ∉ r)) :
    At cfg left' (d.log e) where
  follows := by rw [Device.milestones_log]; exact hf
  role_eq := h.role_eq
  phase := hphase
  context := h.context
  peers := h.peers
  lmk_left := hlmk
  lmk_eq := h.lmk_eq
  lmk_exported := fun hl => by
    rw [Device.milestones_log]
    exact List.mem_append_left _ (h.lmk_exported hl)
  fits := h.fits_append (.log d e) rfl (by simpa using he)

theorem accept {t : MsgType} (h : At cfg (some (.accepted t :: r)) d) {msg : EdhocTransportMsg}
    (htype : msg.type = t.code) (hsid : msg.sessionId = edhocSessionId)
    (hc : t.Checked d.trace msg) : At cfg (some r) (d.log (.accepted msg)) := by
  have hmile : (Event.accepted (L := L) msg).milestone? = some (.accepted t) := by
    simp only [Event.milestone?, htype, MsgType.ofCode?_code, Option.map_some]
  refine h.log (e := .accepted msg) ⟨hsid, t, htype, hc.mono (List.subset_append_left ..)⟩
    ?_ ?_ ?_
  · rw [hmile]
    exact h.follows.advance (l := [Milestone.accepted t])
  · intro r' hr'
    cases hr'
    have hp := h.phase _ rfl
    exact hp
  · intro r' hr'
    cases hr'
    simpa using h.lmk_left _ rfl

/-! ### Handshake calls -/

variable {x : Handshake} {output : Option (List UInt8)} {length : Option ℕ} {ret : FfiRet L}

theorem phase_source (h : At cfg (some (.handshake x :: r)) d) :
    d.session.phase? = some x.source := h.phase _ rfl

theorem grows_called (h : At cfg (some (.handshake x :: r)) d) (input : List UInt8)
    (ret : FfiRet L) : Grows cfg d (d.called x input ret) where
  trace := List.prefix_append ..
  session := fun hd => by
    rw [h.phase_source] at hd
    cases x <;> cases hd
  lmk := fun _ hl => hl

theorem lmk_none (h : At cfg (some (.handshake x :: r)) d) : d.lmk? cfg = none := by
  rcases hl : d.lmk? cfg with _ | lmk
  · rfl
  · obtain ⟨done, hd, -⟩ := h.lmk_eq lmk hl
    have hp := Session.phase?_of_done? hd
    rw [h.phase_source] at hp
    cases x <;> cases hp

theorem lmk_none_called (h : At cfg (some (.handshake x :: r)) d) {input : List UInt8} :
    (d.called x input ret).lmk? cfg = none := h.lmk_none

theorem called_stop (h : At cfg (some (.handshake x :: r)) d) (input : List UInt8)
    (hok : ret.status ≠ .ok) (hws : ret.status ≠ .wrongState)
    (hrole : ret.session.role? = some cfg.role)
    (hctx : ret.session.phase? ≠ some .failed →
      ret.session.exporterContext? = some cfg.exporterContext) :
    At cfg none (d.called x input ret) where
  follows := by
    have hm : (d.called x input ret).milestones = d.milestones := by
      simp [Device.milestones, Device.called, Event.milestone?, hok]
    rw [hm]
    exact h.follows.stop
  role_eq := hrole
  phase := nofun
  context := hctx
  peers := h.peers
  lmk_left := nofun
  lmk_eq := fun lmk hl => by rw [h.lmk_none_called] at hl; cases hl
  lmk_exported := fun hl => by rw [h.lmk_none_called] at hl; cases hl
  fits := h.fits_append (h.grows_called input ret) rfl
    (by simpa using ⟨hws, fun h' => absurd h' hok⟩)

theorem called_next (h : At cfg (some (.handshake x :: r)) d) (input : List UInt8)
    (hr : phaseAt r = x.target) (hstatus : ret.status = .ok)
    (hrole : ret.session.role? = some cfg.role) (hphase : ret.session.phase? = some x.target)
    (hctx : ret.session.exporterContext? = some cfg.exporterContext) :
    At cfg (some r) (d.called x input ret) where
  follows := by
    have hm : (d.called x input ret).milestones = d.milestones ++ [.handshake x] := by
      simp [Device.milestones, Device.called, Event.milestone?, hstatus]
    rw [hm]
    exact h.follows.advance (l := [Milestone.handshake x])
  role_eq := hrole
  phase := fun r' hr' => by
    cases hr'
    rw [hr]
    exact hphase
  context := fun _ => hctx
  peers := h.peers
  lmk_left := fun r' hr' => by
    cases hr'
    have hl : (d.lmk? cfg).isSome ↔ .installed ∉ r := by simpa using h.lmk_left _ rfl
    exact hl
  lmk_eq := fun lmk hl => by rw [h.lmk_none_called] at hl; cases hl
  lmk_exported := fun hl => by rw [h.lmk_none_called] at hl; cases hl
  fits := h.fits_append (h.grows_called input ret) rfl (by
    simpa using ⟨by rw [hstatus]; nofun, fun _ hd => ⟨by rw [← hd]; exact hphase, rfl⟩⟩)

/-- **A handshake call** that is next takes the board on when it returns `OK`, and stops it
otherwise. -/
theorem called (h : At cfg (some (.handshake x :: r)) d) (input : List UInt8)
    (hx : x.role = cfg.role) (hr : phaseAt r = x.target)
    (hout : HandshakeOutcome x output length d.session ret) :
    (ret.status = .ok → At cfg (some r) (d.called x input ret)) ∧
      At cfg none (d.called x input ret) := by
  cases hout with
  | refused hstatus hsession =>
    have hws : ret.status ≠ .wrongState := by
      rcases hstatus with h' | h' | ⟨-, h'⟩
      · rw [h']; nofun
      · rw [h']; nofun
      · exact absurd ⟨h.role_eq.trans (by rw [hx]), h.phase_source⟩ h'
    have hok : ret.status ≠ .ok := by
      rcases hstatus with h' | h' | ⟨h', -⟩ <;> rw [h'] <;> nofun
    refine ⟨fun h' => absurd h' hok, h.called_stop input hok hws ?_ ?_⟩
    · rw [hsession]; exact h.role_eq
    · rw [hsession]; exact h.context
  | failed hstatus hrole hphase hsession =>
    have hok : ret.status ≠ .ok := by rw [hstatus]; nofun
    refine ⟨fun h' => absurd h' hok, h.called_stop input hok (by rw [hstatus]; nofun) ?_ ?_⟩
    · rw [hsession, Session.role?_failedOf, hx]
    · rw [hsession, Session.phase?_failedOf]
      exact fun h' => absurd rfl h'
  | advanced hstatus hrole hphase hrole' hphase' hctx =>
    have hnext := h.called_next input hr hstatus (hrole'.trans (by rw [hx])) hphase'
      (hctx.trans (h.context (by rw [hphase]; cases x <;> nofun)))
    exact ⟨fun _ => hnext, hnext.stop⟩

/-! ### Sending -/

theorem transmit_eq (cfg : Config) (env : Env L) (t : MsgType) (seq : UInt16)
    (payload : Option (List UInt8)) (len : ℕ) (d : Device L) :
    (∃ f, (transmit cfg env t seq payload len d).2 = d.log (.sent f) ∧ f.dest = cfg.peerMac ∧
      f.entry = d.entry cfg.peerMac ∧ frameType f.data = t.code) ∨
    (transmit cfg env t seq payload len d).2 = d ∧
      (transmit cfg env t seq payload len d).1 ≠ espOk := by
  unfold transmit
  split
  · next err f hs =>
    obtain ⟨-, -, hdest, hentry, htype, -⟩ := edhocTransportSend_some hs
    exact .inl ⟨f, rfl, hdest, hentry, htype⟩
  · next hs => exact .inr ⟨rfl, edhocTransportSend_none hs⟩

/-- **Sending** the frame that is next takes the board on when it returns `ESP_OK`; in any case it
leaves a position of a stopped board. -/
theorem transmit {t : MsgType} (h : At cfg (some (.sent t :: r)) d) (env : Env L) (seq : UInt16)
    (payload : Option (List UInt8)) (len : ℕ) (ht : t.isControl = true ↔ .installed ∉ r) :
    ((EspNowEdhoc.transmit cfg env t seq payload len d).1 = espOk →
        At cfg (some r) (EspNowEdhoc.transmit cfg env t seq payload len d).2) ∧
      At cfg none (EspNowEdhoc.transmit cfg env t seq payload len d).2 ∧
      Grows cfg d (EspNowEdhoc.transmit cfg env t seq payload len d).2 := by
  rcases transmit_eq cfg env t seq payload len d with ⟨f, heq, hdest, hentry, htype⟩ | ⟨heq, herr⟩
  · rw [heq]
    have hlmk : f.lmk? = d.lmk? cfg := by rw [SentFrame.lmk?, hentry]; rfl
    have hleft : (d.lmk? cfg).isSome ↔ .installed ∉ r := by simpa using h.lmk_left _ rfl
    have hphase := h.phase _ rfl
    have hfits : (Event.sent f).Fits cfg (d.log (.sent f)) := by
      obtain ⟨e, he⟩ := h.peers
      refine ⟨hdest, ?_, fun _ => hlmk.symm, t, htype, ?_⟩
      · rw [hentry, Device.entry, he, Function.update_self]
        rfl
      · rw [hlmk, Bool.eq_iff_iff, hleft, ht]
    have hmile : (Event.sent (L := L) f).milestone? = some (.sent t) := by
      simp only [Event.milestone?, htype, MsgType.ofCode?_code, Option.map_some]
    have hnext : At cfg (some r) (d.log (.sent f)) := by
      refine h.log hfits ?_ ?_ ?_
      · rw [hmile]
        exact h.follows.advance (l := [Milestone.sent t])
      · intro r' hr'
        cases hr'
        exact hphase
      · intro r' hr'
        cases hr'
        exact hleft
    exact ⟨fun _ => hnext, hnext.stop, .log d _⟩
  · rw [heq]
    exact ⟨fun h' => absurd h' herr, h.stop, .refl d⟩

/-! ### Installing -/

theorem exportedLmk?_eq (h : At cfg (some (.exported :: r)) d) (hr : phaseAt r = .done) :
    ∃ done, d.session.done? = some done ∧
      d.session.exportedLmk? = some (exportLmk done cfg.exporterContext) := by
  have hp : d.session.phase? = some .done := by
    have hp := h.phase _ rfl
    rw [show phaseAt (.exported :: r) = phaseAt r from rfl, hr] at hp
    exact hp
  obtain ⟨done, hdone⟩ := Option.isSome_iff_exists.mp ((Session.done?_isSome _).mpr hp)
  exact ⟨done, hdone, by rw [Session.exportedLmk?, hdone, h.context_of_done hdone]; rfl⟩

theorem install_eq (h : At cfg (some (.exported :: r)) d) (hr : phaseAt r = .done) (env : Env L) :
    ∃ done ret d₁, d.session.done? = some done ∧ ret.status = .ok ∧ d₁.session = d.session ∧
      d₁.trace = d.trace ++ [.exportLmk ret] ∧
      let lmk := cfg.lmkToInstall (exportLmk done cfg.exporterContext)
      ((deriveAndInstallLmk cfg env d).1 ≠ espOk ∧ (deriveAndInstallLmk cfg env d).2 = d₁ ∧
        d₁.espNow.peers = d.espNow.peers) ∨
      d₁.espNow.peers = Function.update d.espNow.peers cfg.peerMac
          (some (encryptedPeer cfg.espnowChannel cfg.peerMac lmk)) ∧
        ((deriveAndInstallLmk cfg env d).1 ≠ espOk ∧ (deriveAndInstallLmk cfg env d).2 = d₁ ∨
          (deriveAndInstallLmk cfg env d).2 = d₁.log (.installed lmk)) := by
  obtain ⟨done, hdone, hlmk⟩ := h.exportedLmk?_eq hr
  have hkm := keyManager_peers env.esp cfg.espnowChannel cfg.peerMac
    (cfg.lmkToInstall (exportLmk done cfg.exporterContext)) d.espNow
  obtain ⟨err, n', es, hend, heq⟩ := deriveAndInstallLmk_eq cfg env d.session d.espNow
  rw [heq d rfl rfl]
  cases hend with
  | notExported _ hexp => rw [hlmk] at hexp; cases hexp
  | @notInstalled ret _ _ _ hexp hret hnow herr =>
    rw [hlmk, Option.some.injEq] at hexp
    subst hexp
    rw [hnow] at hkm
    refine ⟨done, ret, { d with espNow := n', trace := d.trace ++ [.exportLmk ret] }, hdone, hret,
      rfl, rfl, ?_⟩
    exact hkm.imp (fun h => ⟨herr, rfl, h.2⟩) fun h => ⟨h, .inl ⟨herr, rfl⟩⟩
  | @installed ret _ _ hexp hret hnow =>
    rw [hlmk, Option.some.injEq] at hexp
    subst hexp
    rw [hnow] at hkm
    refine ⟨done, ret, { d with espNow := n', trace := d.trace ++ [.exportLmk ret] }, hdone, hret,
      rfl, rfl, .inr ⟨hkm.resolve_left fun h => h.1 rfl, .inr ?_⟩⟩
    simp only [Device.log, List.append_assoc]
    rfl

theorem exported_stop (h : At cfg (some (.exported :: r)) d) {done : L.Done} {ret : FfiRet L}
    {d₁ : Device L} (hdone : d.session.done? = some done) (hok : ret.status = .ok)
    (hses : d₁.session = d.session) (htrace : d₁.trace = d.trace ++ [.exportLmk ret])
    (hg : Grows cfg d d₁)
    (hpeers : ∃ e, d₁.espNow.peers = Function.update (fun _ => none) cfg.peerMac (some e))
    (hlmk : ∀ lmk, d₁.lmk? cfg = some lmk →
      lmk = cfg.lmkToInstall (exportLmk done cfg.exporterContext)) : At cfg none d₁ := by
  have hmile : d₁.milestones = d.milestones ++ [.exported] := by
    simp [Device.milestones, htrace, Event.milestone?, hok]
  exact
    { follows := by
        rw [hmile]
        exact (h.follows.advance (l := [Milestone.exported])).stop
      role_eq := by rw [hses]; exact h.role_eq
      phase := nofun
      context := by rw [hses]; exact h.context
      peers := hpeers
      lmk_left := nofun
      lmk_eq := fun lmk hl => ⟨done, by rw [hses, hdone], hlmk lmk hl⟩
      lmk_exported := fun _ => by rw [hmile]; simp
      fits := h.fits_append hg htrace fun e he => by
        rw [List.mem_singleton] at he
        subst he
        exact hok }

/-- **Installing** the key that is next takes the board on when it returns `ESP_OK`; in any case it
leaves a position of a stopped board. -/
theorem install (h : At cfg (some (.exported :: .installed :: r)) d) (hr : phaseAt r = .done)
    (hi : .installed ∉ r) (env : Env L) :
    ((deriveAndInstallLmk cfg env d).1 = espOk →
        At cfg (some r) (deriveAndInstallLmk cfg env d).2) ∧
      At cfg none (deriveAndInstallLmk cfg env d).2 ∧
      Grows cfg d (deriveAndInstallLmk cfg env d).2 := by
  obtain ⟨done, ret, d₁, hdone, hok, hses, htrace, hcases⟩ := h.install_eq hr env
  have hnone : d.lmk? cfg = none := by simpa using (h.lmk_left _ rfl).not
  have hphase := Session.phase?_of_done? hdone
  have hg : Grows cfg d d₁ :=
    ⟨by rw [htrace]; exact List.prefix_append .., fun _ => hses,
      fun lmk hl => by rw [hnone] at hl; cases hl⟩
  have hmile : d₁.milestones = d.milestones ++ [.exported] := by
    simp [Device.milestones, htrace, Event.milestone?, hok]
  have hstop := h.exported_stop hdone hok hses htrace hg
  obtain ⟨e, he⟩ := h.peers
  rcases hcases with ⟨herr, heq, hpeers⟩ | ⟨hpeers, hcases⟩
  · rw [heq]
    refine ⟨fun h' => absurd h' herr, hstop ⟨e, by rw [hpeers, he]⟩ fun lmk hl => ?_, hg⟩
    rw [Device.lmk?, Device.entry, hpeers] at hl
    rw [Device.lmk?, Device.entry, hl] at hnone
    cases hnone
  rw [he, Function.update_idem] at hpeers
  have hlmk : d₁.lmk? cfg = some (cfg.lmkToInstall (exportLmk done cfg.exporterContext)) := by
    rw [Device.lmk?, Device.entry, hpeers, Function.update_self]
    rfl
  have hstop := hstop ⟨_, hpeers⟩ fun lmk hl => by rw [hlmk] at hl; cases hl; rfl
  rcases hcases with ⟨herr, heq⟩ | heq
  · rw [heq]
    exact ⟨fun h' => absurd h' herr, hstop, hg⟩
  rw [heq]
  have hnext : At cfg (some r)
      (d₁.log (.installed (cfg.lmkToInstall (exportLmk done cfg.exporterContext)))) := by
    refine hstop.log (e := .installed _) hlmk ?_ ?_ ?_
    · rw [hmile, List.append_assoc]
      exact h.follows.advance (l := [Milestone.exported, Milestone.installed])
    · intro r' hr'
      cases hr'
      rw [hr, hses]
      exact hphase
    · intro r' hr'
      cases hr'
      exact iff_of_true (by rw [hlmk]; rfl) hi
  exact ⟨fun _ => hnext, hnext.stop, hg.trans (.log d₁ _)⟩

end At

/-! ## The control state -/

/-- The pairing state, the start flag and the place of the task are the same. -/
structure SameControl (d d' : Device L) : Prop where
  state : d'.state = d.state
  started : d'.initiatorStarted = d.initiatorStarted
  pc : d'.pc = d.pc

theorem sameControl_transmit (cfg : Config) (env : Env L) (t : MsgType) (seq : UInt16)
    (payload : Option (List UInt8)) (len : ℕ) (d : Device L) :
    SameControl d (transmit cfg env t seq payload len d).2 := by
  unfold transmit
  split <;> exact ⟨rfl, rfl, rfl⟩

theorem sameControl_deriveAndInstallLmk (cfg : Config) (env : Env L) (d : Device L) :
    SameControl d (deriveAndInstallLmk cfg env d).2 := by
  obtain ⟨err, n', es, -, heq⟩ := deriveAndInstallLmk_eq cfg env d.session d.espNow
  rw [heq d rfl rfl]
  exact ⟨rfl, rfl, rfl⟩

end EspNowEdhoc
