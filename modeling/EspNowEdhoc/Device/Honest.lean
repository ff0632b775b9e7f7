import EspNowEdhoc.Device.Sender

/-!
# Lakers and the handler when nothing fails

* `Transcript`: one honest run of Lakers; `Lakers.Honest`: whatever the random bytes, there is one.
-/

set_option autoImplicit false

namespace EspNowEdhoc

variable {L : Lakers}

/-! ## Transcripts -/

/-- A buffer that travels in one frame and is read back. -/
def Lakers.Travels (L : Lakers) (m : L.Buffer) : Prop :=
  0 < (L.asSlice m).length ∧ (L.asSlice m).length ≤ 192 ∧ L.newFromSlice (L.asSlice m) = some m

variable (L) in
/-- An honest run of Lakers: the random bytes of the four steps that take some, and what the two
sides make of them. -/
structure Transcript where
  bootI : L.Rng
  makeM1 : L.Rng
  bootR : L.Rng
  makeM2 : L.Rng
  credI : L.Credential
  credR : L.Credential
  waitM2 : L.EdhocInitiatorWaitM2
  message1 : L.Buffer
  waitM3 : L.EdhocResponderWaitM3
  message2 : L.Buffer
  doneI : L.Done
  message3 : L.Buffer
  doneR : L.Done
  credI_eq : L.parseInitiatorCredential = some credI
  credR_eq : L.parseResponderCredential = some credR
  message1_eq : L.prepareMessage1 makeM1
    (L.setIdentity (L.initiatorNew bootI) initiatorPrivate credI) = some (waitM2, message1)
  message2_eq : L.respondMessage1 makeM2 (L.responderNew bootR responderPrivate credR) message1 =
    some (waitM3, message2)
  message3_eq : L.processMessage2 waitM2 message2 = some (doneI, message3)
  done_eq : L.processMessage3 waitM3 message3 = some doneR
  travels : L.Travels message1 ∧ L.Travels message2 ∧ L.Travels message3

/-- Lakers succeeds on every honestly produced message, and the messages fit a frame. -/
def Lakers.Honest (L : Lakers) : Prop :=
  ∀ bootI makeM1 bootR makeM2, ∃ t : Transcript L, t.bootI = bootI ∧ t.makeM1 = makeM1 ∧
    t.bootR = bootR ∧ t.makeM2 = makeM2

theorem Lakers.processMessage3_sample {prk prk' : UInt8 × UInt8} {m : List UInt8} :
    Lakers.sample.processMessage3 prk m = some prk' ↔ m = [3, prk.1, prk.2] ∧ prk' = prk := by
  by_cases h : m = [3, prk.1, prk.2]
  · subst h
    simp [processMessage3, sample, parseInitiatorCredential, eq_comm]
  · simp [processMessage3, sample, h]

/-- The two sides of the toy Lakers have one PRK_out. -/
theorem Transcript.doneI_sample (t : Transcript Lakers.sample) : t.doneI = t.doneR := by
  obtain ⟨⟨prk, _⟩, -, h⟩ := Option.bind_eq_some_iff.mp t.message3_eq
  obtain ⟨hdone, hmessage⟩ := Prod.mk.inj (Option.some.inj h)
  obtain ⟨hmessage', hdone'⟩ := Lakers.processMessage3_sample.mp t.done_eq
  rw [← hdone, hdone']
  have htail := (List.cons.inj (hmessage.trans hmessage')).2
  exact Prod.ext (List.cons.inj htail).1 (List.cons.inj (List.cons.inj htail).2).1

theorem Lakers.travels_sample {m : List UInt8} {k : ℕ} (hlen : m.length = k)
    (hk : 0 < k ∧ k ≤ 192) : Lakers.sample.Travels m := by
  subst hlen
  exact ⟨hk.1, hk.2, if_pos hk.2⟩

theorem Lakers.honest_sample : Lakers.sample.Honest := fun bootI makeM1 bootR makeM2 =>
  ⟨{  bootI, makeM1, bootR, makeM2
      credI := (), credR := ()
      waitM2 := bootI, message1 := [1, bootI]
      waitM3 := (bootI, bootR), message2 := [2, bootR]
      doneI := (bootI, bootR), message3 := [3, bootI, bootR]
      doneR := (bootI, bootR)
      credI_eq := rfl, credR_eq := rfl
      message1_eq := rfl, message2_eq := rfl, message3_eq := rfl
      done_eq := processMessage3_sample.mpr ⟨rfl, rfl⟩
      travels := ⟨travels_sample (k := 2) rfl (by decide), travels_sample (k := 2) rfl (by decide),
        travels_sample (k := 3) rfl (by decide)⟩ }, rfl, rfl, rfl, rfl⟩

namespace Transcript

variable (t : Transcript L)

def boot : Role → L.Rng
  | .initiator => t.bootI
  | .responder => t.bootR

/-- The session of the initiator at boot. -/
def initiator : L.EdhocInitiator :=
  L.setIdentity (L.initiatorNew t.bootI) initiatorPrivate t.credI

/-- The session of the responder at boot. -/
def responder : L.EdhocResponder := L.responderNew t.bootR responderPrivate t.credR

variable {t} {t' : Transcript L}

theorem initiator_congr (h : t'.bootI = t.bootI) : t'.initiator = t.initiator := by
  have hcred := t'.credI_eq.symm.trans t.credI_eq
  rw [Option.some.injEq] at hcred
  rw [initiator, initiator, h, hcred]

theorem responder_congr (h : t'.bootR = t.bootR) : t'.responder = t.responder := by
  have hcred := t'.credR_eq.symm.trans t.credR_eq
  rw [Option.some.injEq] at hcred
  rw [responder, responder, h, hcred]

theorem message1_congr (h : t'.bootI = t.bootI) (h' : t'.makeM1 = t.makeM1) :
    t'.waitM2 = t.waitM2 ∧ t'.message1 = t.message1 := by
  have heq := t'.message1_eq
  have hinit := initiator_congr h
  rw [initiator] at hinit
  rw [hinit, h', initiator, t.message1_eq, Option.some.injEq, Prod.mk.injEq] at heq
  exact ⟨heq.1.symm, heq.2.symm⟩

end Transcript

/-! ## Calls that succeed -/

section Calls

variable {m m' : L.Buffer} {ctx : ExporterContext} {s : Session L}

/-- What a handshake call leaves in the caller's message buffer. -/
def written (m : L.Buffer) : Option (List UInt8) × Option ℕ :=
  copyOutput (L.asSlice m) messageBuffer

theorem inputSlice_fill (h : L.Travels m) :
    inputSlice (some (Bytes.fill 192 (L.asSlice m)).toList)
      (UInt16.ofNat (L.asSlice m).length).toNat = .ok (L.asSlice m) := by
  obtain ⟨hpos, hle, -⟩ := h
  have hlen : (UInt16.ofNat (L.asSlice m).length).toNat = (L.asSlice m).length := by
    rw [UInt16.toNat_ofNat', Nat.mod_eq_of_lt (by omega)]
  rw [hlen, inputSlice, if_neg (by unfold maxEdhocMessageLen; omega), Bytes.take_toList_fill hle]

theorem makeMessage1_ok {rng : L.Rng} {i : L.EdhocInitiator} {w : L.EdhocInitiatorWaitM2}
    (hs : s = .initiator ⟨.start i, ctx⟩) (h : L.prepareMessage1 rng i = some (w, m)) :
    lakersEdhocMakeMessage1 rng messageBuffer maxEdhocMessageLen (some 0) s =
      ⟨.ok, .initiator ⟨.waitM2 w, ctx⟩, (written m).1, (written m).2⟩ := by
  have hp : prepareOutput messageBuffer maxEdhocMessageLen (some 0) = (.ok (), some 0) := rfl
  simp only [hs, lakersEdhocMakeMessage1, hp, memReplace, h, written]

theorem processMessage1_ok {rng : L.Rng} {r : L.EdhocResponder} {w : L.EdhocResponderWaitM3}
    (hm : L.Travels m) (hs : s = .responder ⟨.start r, ctx⟩)
    (h : L.respondMessage1 rng r m = some (w, m')) :
    lakersEdhocProcessMessage1 rng (some (Bytes.fill 192 (L.asSlice m)).toList)
        (UInt16.ofNat (L.asSlice m).length).toNat messageBuffer maxEdhocMessageLen (some 0) s =
      ⟨.ok, .responder ⟨.waitM3 w, ctx⟩, (written m').1, (written m').2⟩ := by
  have hp : prepareOutput messageBuffer maxEdhocMessageLen (some 0) = (.ok (), some 0) := rfl
  simp only [hs, lakersEdhocProcessMessage1, hp, inputSlice_fill hm, hm.2.2, memReplace, h, written]

theorem processMessage2_ok {w : L.EdhocInitiatorWaitM2} {done : L.Done} (hm : L.Travels m)
    (hs : s = .initiator ⟨.waitM2 w, ctx⟩) (h : L.processMessage2 w m = some (done, m')) :
    lakersEdhocProcessMessage2 (some (Bytes.fill 192 (L.asSlice m)).toList)
        (UInt16.ofNat (L.asSlice m).length).toNat messageBuffer maxEdhocMessageLen (some 0) s =
      ⟨.ok, .initiator ⟨.done done, ctx⟩, (written m').1, (written m').2⟩ := by
  have hp : prepareOutput messageBuffer maxEdhocMessageLen (some 0) = (.ok (), some 0) := rfl
  simp only [hs, lakersEdhocProcessMessage2, hp, inputSlice_fill hm, hm.2.2, memReplace, h, written]

theorem processMessage3_ok {w : L.EdhocResponderWaitM3} {done : L.Done} (hm : L.Travels m)
    (hs : s = .responder ⟨.waitM3 w, ctx⟩) (h : L.processMessage3 w m = some done) :
    lakersEdhocProcessMessage3 (some (Bytes.fill 192 (L.asSlice m)).toList)
        (UInt16.ofNat (L.asSlice m).length).toNat s =
      ⟨.ok, .responder ⟨.done done, ctx⟩, none, none⟩ := by
  simp only [hs, lakersEdhocProcessMessage3, inputSlice_fill hm, hm.2.2, memReplace, h]

end Calls

/-! ## Steps that succeed -/

def Device.sentData (d : Device L) : List (List UInt8) := d.sentFrames.map (·.data)

section Steps

variable {cfg : Config} {env : Env L} {d : Device L}

theorem sentData_of_trace {d' : Device L} {l : List (Event L)} (h : d'.trace = d.trace ++ l) :
    d'.sentData = d.sentData ++ (l.filterMap Event.sent?).map (·.data) := by
  rw [Device.sentData, Device.sentData, Device.sentFrames, Device.sentFrames, h,
    List.filterMap_append, List.map_append]

theorem sentData_log_sent (d : Device L) (f : SentFrame) :
    (d.log (.sent f)).sentData = d.sentData ++ [f.data] := sentData_of_trace (l := [.sent f]) rfl

theorem sentData_log_accepted (d : Device L) (msg : EdhocTransportMsg) :
    (d.log (.accepted msg)).sentData = d.sentData :=
  (sentData_of_trace (l := [.accepted msg]) rfl).trans (List.append_nil _)

theorem payloadIs_ofPayload (src : Mac) (t : MsgType) (seq : UInt16) {s : List UInt8}
    (hs : s.length ≤ 193) : payloadIs (.ofPayload src t seq s.dropLast) s = true := by
  have hlen : s.dropLast.length = s.length - 1 := List.length_dropLast
  have hnat : (UInt16.ofNat s.dropLast.length).toNat = s.length - 1 := by
    rw [UInt16.toNat_ofNat', hlen, Nat.mod_eq_of_lt (by omega)]
  have htake := Bytes.take_toList_fill (n := 192) (l := s.dropLast) (by omega)
  rw [hlen] at htake
  exact decide_eq_true ⟨hnat, htake.trans (List.dropLast_eq_take ..)⟩

/-- What a step that succeeds does with a frame: the session is `session`, the frame is sent, and
the control state is the same. -/
structure Sent (d d' : Device L) (session : Session L) (data : List UInt8) : Prop where
  control : SameControl d d'
  session_eq : d'.session = session
  sent : d'.sentData = d.sentData ++ [data]

theorem transmit_ok (cfg : Config) (hesp : env.esp = .ok) (t : MsgType) (seq : UInt16)
    {buffer : List UInt8} {len : ℕ} (hlen : len ≤ 192) (hbuf : len ≤ buffer.length)
    (d : Device L) :
    ∃ d', transmit cfg env t seq (some buffer) len d = (espOk, d') ∧
      Sent d d' d.session (frameBytes t.code edhocSessionId seq (buffer.take len)) := by
  rw [transmit_fits cfg env t seq hlen hbuf, hesp]
  exact ⟨_, rfl, ⟨rfl, rfl, rfl⟩, rfl, sentData_log_sent d _⟩

theorem send_ok (cfg : Config) (hesp : env.esp = .ok) (t : MsgType) (seq : UInt16)
    {buffer : List UInt8} {len : ℕ} (hlen : len ≤ 192) (hbuf : len ≤ buffer.length) (d : Device L)
    (next : Device L → Device L) :
    ∃ d', espErrorCheck (transmit cfg env t seq (some buffer) len d) next = next d' ∧
      Sent d d' d.session (frameBytes t.code edhocSessionId seq (buffer.take len)) := by
  obtain ⟨d', heq, h⟩ := transmit_ok cfg hesp t seq hlen hbuf d
  exact ⟨d', by rw [heq]; rfl, h⟩

theorem exchange_ok (cfg : Config) (hesp : env.esp = .ok) (x : Handshake) (input : List UInt8)
    {ret : FfiRet L} (hret : ret.status = .ok) (accepted : List (Event L))
    (hacc : accepted.filterMap Event.sent? = []) (t : MsgType) (seq : UInt16) {buffer : List UInt8}
    {len : ℕ} (hlen : len ≤ 192) (hbuf : len ≤ buffer.length)
    (onFail next : Device L → Device L) (d : Device L) :
    ∃ d', exchange x input ret accepted onFail (transmit cfg env t seq (some buffer) len) next d =
        next d' ∧
      Sent d d' ret.session (frameBytes t.code edhocSessionId seq (buffer.take len)) := by
  obtain ⟨d', heq, hc, hses, hsent⟩ := send_ok cfg hesp t seq hlen hbuf
    { d.called x input ret with trace := (d.called x input ret).trace ++ accepted } next
  have hlog : ({ d.called x input ret with
      trace := (d.called x input ret).trace ++ accepted } : Device L).sentData = d.sentData := by
    rw [sentData_of_trace (d := d) (l := .handshake x input ret :: accepted)
      (List.append_assoc ..), List.filterMap_cons_none rfl, hacc]
    exact List.append_nil _
  rw [hlog] at hsent
  refine ⟨d', ?_, ⟨hc.state, hc.started, hc.pc⟩, hses, hsent⟩
  unfold exchange
  dsimp only
  rw [if_neg (not_not.mpr hret), heq]

theorem exchange_written (cfg : Config) (hesp : env.esp = .ok) (x : Handshake)
    (input : List UInt8) {ret : FfiRet L} {session : Session L} {m : L.Buffer}
    (hret : ret = ⟨.ok, session, (written m).1, (written m).2⟩) (hm : L.Travels m)
    (accepted : List (Event L)) (hacc : accepted.filterMap Event.sent? = []) (t : MsgType)
    (seq : UInt16)
    (onFail next : Device L → Device L) (d : Device L) :
    ∃ d', exchange x input ret accepted onFail
        (sendEdhocPayload cfg env t seq ret.output (ret.outputLength.getD 0)) next d = next d' ∧
      Sent d d' session (frameBytes t.code edhocSessionId seq (L.asSlice m)) := by
  subst hret
  have hbuf : (L.asSlice m).length ≤ (L.asSlice m ++
      (List.replicate maxEdhocMessageLen 0).drop (L.asSlice m).length).length := by simp
  have hok : (⟨.ok, session, (written m).1, (written m).2⟩ : FfiRet L).status = .ok := rfl
  have h := exchange_ok cfg hesp x input hok accepted hacc t seq hm.2.1 hbuf onFail next d
  rwa [List.take_left] at h

theorem install_ok (cfg : Config) (hesp : env.esp = .ok) (hphase : d.session.phase? = some .done) :
    (deriveAndInstallLmk cfg env d).1 = espOk := by
  have hreach : ReachesReadBack cfg env d := by
    rw [ReachesReadBack, hesp]
    exact ⟨hphase, rfl, writePeer_ok _ _⟩
  rw [(install_reaches hreach).1, hesp]
  rfl

theorem sentData_deriveAndInstallLmk (cfg : Config) (env : Env L) (d : Device L) :
    (deriveAndInstallLmk cfg env d).2.sentData = d.sentData := by
  obtain ⟨err, n', es, hend, heq⟩ := deriveAndInstallLmk_eq cfg env d.session d.espNow
  have hes : es.filterMap Event.sent? = [] := List.filterMap_eq_nil_iff.mpr fun e he => by
    rcases hend.mem e he with ⟨ret, rfl⟩ | ⟨lmk, rfl⟩ <;> rfl
  rw [heq d rfl rfl, sentData_of_trace rfl, hes]
  exact List.append_nil _

end Steps

end EspNowEdhoc
