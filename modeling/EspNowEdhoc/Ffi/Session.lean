import EspNowEdhoc.Ffi.Lakers

/-!
# The Rust session and its six entry points

* `Session`: `Empty`, or an initiator or a responder session with its phase and exporter context.
* `buildExporterContext`, `createSession`: the length check of `create_session` is what lets the
  slice copies of the context be written down at all.
* The entry points `lakersEdhocSessionInit`, …, `lakersEdhocExportEspnowLmk`. A null pointer is
  `none`; the session is passed in and returned instead of being read from `SESSION`.
-/

namespace EspNowEdhoc

/-- A MAC address, `[u8; 6]`. -/
abbrev Mac : Type := Bytes 6

/-- An LMK, `[u8; ESPNOW_LMK_LEN]`. -/
abbrev Lmk : Type := Bytes 16

/-- The status codes of the ABI. -/
inductive Status
  | ok | invalidArgument | wrongState | bufferTooSmall | protocolError | credentialError
  deriving DecidableEq, Repr

/-- The role of a board. -/
inductive Role
  | initiator | responder
  deriving DecidableEq, Repr

/-- `ROLE_INITIATOR` and `ROLE_RESPONDER`. -/
def Role.code : Role → UInt8
  | .initiator => 1
  | .responder => 2

/-- `MAX_EDHOC_MESSAGE_LEN`. -/
def maxEdhocMessageLen : ℕ := 192

/-- `EXPORTER_LABEL_ESPNOW_LMK`. -/
def exporterLabelEspnowLmk : UInt8 := 0xF0

/-- `EXPORTER_PURPOSE`, the bytes of `ESP-NOW-LMK-v1`. -/
def exporterPurpose : List UInt8 :=
  [0x45, 0x53, 0x50, 0x2D, 0x4E, 0x4F, 0x57, 0x2D, 0x4C, 0x4D, 0x4B, 0x2D, 0x76, 0x31]

/-- `[u8; EXPORTER_CONTEXT_LEN]`. -/
abbrev ExporterContext : Type := Bytes 27

variable (L : Lakers)

inductive InitiatorPhase
  | start (initiator : L.EdhocInitiator)
  | waitM2 (waitM2 : L.EdhocInitiatorWaitM2)
  | done (done : L.Done)
  | failed

structure InitiatorSession where
  phase : InitiatorPhase L
  exporterContext : ExporterContext

inductive ResponderPhase
  | start (responder : L.EdhocResponder)
  | waitM3 (waitM3 : L.EdhocResponderWaitM3)
  | done (done : L.Done)
  | failed

structure ResponderSession where
  phase : ResponderPhase L
  exporterContext : ExporterContext

inductive Session
  | empty
  | initiator (session : InitiatorSession L)
  | responder (session : ResponderSession L)

variable {L}

/-- `build_exporter_context`. The hypotheses are what `copy_from_slice` checks at run time. -/
def buildExporterContext (initiatorMac responderMac : List UInt8) (channel : UInt8)
    (hi : initiatorMac.length = 6) (hr : responderMac.length = 6) : ExporterContext :=
  let context := Bytes.zeroed 27
  let context := context.copyAt 0 exporterPurpose (by decide)
  let context := context.copyAt 14 initiatorMac (by omega)
  let context := context.copyAt 20 responderMac (by omega)
  context.copyAt 26 [channel] (by simp)

/-- `create_session`. -/
def createSession (rng : L.Rng) (role : UInt8) (ownMac peerMac : List UInt8) (channel : UInt8) :
    Except Status (Session L) :=
  if h : ownMac.length ≠ 6 ∨ peerMac.length ≠ 6 ∨ channel = 0 ∨ channel > 14 then
    .error .invalidArgument
  else
    have hown : ownMac.length = 6 := by by_contra hne; exact h (.inl hne)
    have hpeer : peerMac.length = 6 := by by_contra hne; exact h (.inr (.inl hne))
    if role = Role.initiator.code then
      let context := buildExporterContext ownMac peerMac channel hown hpeer
      match L.parseInitiatorCredential with
      | none => .error .credentialError
      | some credential =>
        let initiator := L.setIdentity (L.initiatorNew rng) initiatorPrivate credential
        .ok (.initiator ⟨.start initiator, context⟩)
    else if role = Role.responder.code then
      let context := buildExporterContext peerMac ownMac channel hpeer hown
      match L.parseResponderCredential with
      | none => .error .credentialError
      | some credential =>
        .ok (.responder ⟨.start (L.responderNew rng responderPrivate credential), context⟩)
    else .error .invalidArgument

/-- `prepare_output`: its result and what `*output_length` then holds. -/
def prepareOutput (output : Option (List UInt8)) (outputCapacity : ℕ) (outputLength : Option ℕ) :
    Except Status Unit × Option ℕ :=
  match output, outputLength with
  | some _, some _ =>
    if outputCapacity < maxEdhocMessageLen then (.error .bufferTooSmall, some maxEdhocMessageLen)
    else (.ok (), some 0)
  | _, _ => (.error .invalidArgument, outputLength)

/-- `copy_output`: the buffer and `*output_length` after the copy. -/
def copyOutput (data : List UInt8) (output : Option (List UInt8)) :
    Option (List UInt8) × Option ℕ :=
  (output.map fun buffer => data ++ buffer.drop data.length, some data.length)

/-- `input_slice`. -/
def inputSlice (input : Option (List UInt8)) (inputLength : ℕ) : Except Status (List UInt8) :=
  match input with
  | none => .error .invalidArgument
  | some bytes =>
    if inputLength = 0 ∨ inputLength > maxEdhocMessageLen then .error .invalidArgument
    else .ok (bytes.take inputLength)

/-- `protocol_failed`: the status and the session it stores. -/
def protocolFailed (role : UInt8) : Status × Session L :=
  if role = Role.initiator.code then (.protocolError, .initiator ⟨.failed, Bytes.zeroed 27⟩)
  else if role = Role.responder.code then (.protocolError, .responder ⟨.failed, Bytes.zeroed 27⟩)
  else (.protocolError, .empty)

/-- `mem::replace`: the old value and the new contents of the place. -/
def memReplace {α : Type} (dest src : α) : α × α := (dest, src)

/-- What a call leaves behind: its status, the stored session, and the caller's output buffer and
output length. -/
structure FfiRet (L : Lakers) where
  status : Status
  session : Session L
  output : Option (List UInt8)
  outputLength : Option ℕ

/-- `lakers_edhoc_session_init`. -/
def lakersEdhocSessionInit (rng : L.Rng) (role : UInt8) (ownMac peerMac : Option Mac)
    (channel : UInt8) (session : Session L) : FfiRet L :=
  match ownMac, peerMac with
  | some own, some peer =>
    match createSession rng role own.toList peer.toList channel with
    | .ok newSession => ⟨.ok, newSession, none, none⟩
    | .error status => ⟨status, session, none, none⟩
  | _, _ => ⟨.invalidArgument, session, none, none⟩

/-- `lakers_edhoc_make_message_1`. -/
def lakersEdhocMakeMessage1 (rng : L.Rng) (output : Option (List UInt8)) (outputCapacity : ℕ)
    (outputLength : Option ℕ) (session : Session L) : FfiRet L :=
  match prepareOutput output outputCapacity outputLength with
  | (.error status, outputLength) => ⟨status, session, output, outputLength⟩
  | (.ok (), outputLength) =>
    match memReplace session .empty with
    | (.initiator initiatorSession, _) =>
      match memReplace initiatorSession.phase .failed with
      | (.start initiator, _) =>
        match L.prepareMessage1 rng initiator with
        | some (waitM2, message1) =>
          let initiatorSession := { initiatorSession with phase := .waitM2 waitM2 }
          let out := copyOutput (L.asSlice message1) output
          ⟨.ok, .initiator initiatorSession, out.1, out.2⟩
        | none =>
          let failed := protocolFailed Role.initiator.code
          ⟨failed.1, failed.2, output, outputLength⟩
      | (other, _) =>
        let initiatorSession := { initiatorSession with phase := other }
        ⟨.wrongState, .initiator initiatorSession, output, outputLength⟩
    | (other, _) => ⟨.wrongState, other, output, outputLength⟩

/-- `lakers_edhoc_process_message_1`. -/
def lakersEdhocProcessMessage1 (rng : L.Rng) (input : Option (List UInt8)) (inputLength : ℕ)
    (output : Option (List UInt8)) (outputCapacity : ℕ) (outputLength : Option ℕ)
    (session : Session L) : FfiRet L :=
  match prepareOutput output outputCapacity outputLength with
  | (.error status, outputLength) => ⟨status, session, output, outputLength⟩
  | (.ok (), outputLength) =>
    match inputSlice input inputLength with
    | .error status => ⟨status, session, output, outputLength⟩
    | .ok input =>
      match L.newFromSlice input with
      | none => ⟨.invalidArgument, session, output, outputLength⟩
      | some message1 =>
        match memReplace session .empty with
        | (.responder responderSession, _) =>
          match memReplace responderSession.phase .failed with
          | (.start responder, _) =>
            match L.respondMessage1 rng responder message1 with
            | some (waitM3, message2) =>
              let responderSession := { responderSession with phase := .waitM3 waitM3 }
              let out := copyOutput (L.asSlice message2) output
              ⟨.ok, .responder responderSession, out.1, out.2⟩
            | none =>
              let failed := protocolFailed Role.responder.code
              ⟨failed.1, failed.2, output, outputLength⟩
          | (other, _) =>
            let responderSession := { responderSession with phase := other }
            ⟨.wrongState, .responder responderSession, output, outputLength⟩
        | (other, _) => ⟨.wrongState, other, output, outputLength⟩

/-- `lakers_edhoc_process_message_2`. -/
def lakersEdhocProcessMessage2 (input : Option (List UInt8)) (inputLength : ℕ)
    (output : Option (List UInt8)) (outputCapacity : ℕ) (outputLength : Option ℕ)
    (session : Session L) : FfiRet L :=
  match prepareOutput output outputCapacity outputLength with
  | (.error status, outputLength) => ⟨status, session, output, outputLength⟩
  | (.ok (), outputLength) =>
    match inputSlice input inputLength with
    | .error status => ⟨status, session, output, outputLength⟩
    | .ok input =>
      match L.newFromSlice input with
      | none => ⟨.invalidArgument, session, output, outputLength⟩
      | some message2 =>
        match memReplace session .empty with
        | (.initiator initiatorSession, _) =>
          match memReplace initiatorSession.phase .failed with
          | (.waitM2 waitM2, _) =>
            match L.processMessage2 waitM2 message2 with
            | some (done, message3) =>
              let initiatorSession := { initiatorSession with phase := .done done }
              let out := copyOutput (L.asSlice message3) output
              ⟨.ok, .initiator initiatorSession, out.1, out.2⟩
            | none =>
              let failed := protocolFailed Role.initiator.code
              ⟨failed.1, failed.2, output, outputLength⟩
          | (other, _) =>
            let initiatorSession := { initiatorSession with phase := other }
            ⟨.wrongState, .initiator initiatorSession, output, outputLength⟩
        | (other, _) => ⟨.wrongState, other, output, outputLength⟩

/-- `lakers_edhoc_process_message_3`. -/
def lakersEdhocProcessMessage3 (input : Option (List UInt8)) (inputLength : ℕ)
    (session : Session L) : FfiRet L :=
  match inputSlice input inputLength with
  | .error status => ⟨status, session, none, none⟩
  | .ok input =>
    match L.newFromSlice input with
    | none => ⟨.invalidArgument, session, none, none⟩
    | some message3 =>
      match memReplace session .empty with
      | (.responder responderSession, _) =>
        match memReplace responderSession.phase .failed with
        | (.waitM3 waitM3, _) =>
          match L.processMessage3 waitM3 message3 with
          | some done =>
            let responderSession := { responderSession with phase := .done done }
            ⟨.ok, .responder responderSession, none, none⟩
          | none =>
            let failed := protocolFailed Role.responder.code
            ⟨failed.1, failed.2, none, none⟩
        | (other, _) =>
          let responderSession := { responderSession with phase := other }
          ⟨.wrongState, .responder responderSession, none, none⟩
      | (other, _) => ⟨.wrongState, other, none, none⟩

/-- The LMK a completed session exports under an exporter context. -/
def exportLmk (done : L.Done) (context : ExporterContext) : Lmk :=
  L.edhocExporter done exporterLabelEspnowLmk context.toList 16

/-- `lakers_edhoc_export_espnow_lmk`. -/
def lakersEdhocExportEspnowLmk (outputLmk : Option (List UInt8)) (session : Session L) :
    FfiRet L :=
  match outputLmk with
  | none => ⟨.invalidArgument, session, none, none⟩
  | some output =>
    match session with
    | .initiator initiatorSession =>
      match initiatorSession.phase with
      | .done done =>
        let lmk := exportLmk done initiatorSession.exporterContext
        ⟨.ok, session, some (lmk.toList ++ output.drop 16), none⟩
      | _ => ⟨.wrongState, session, some output, none⟩
    | .responder responderSession =>
      match responderSession.phase with
      | .done done =>
        let lmk := exportLmk done responderSession.exporterContext
        ⟨.ok, session, some (lmk.toList ++ output.drop 16), none⟩
      | _ => ⟨.wrongState, session, some output, none⟩
    | .empty => ⟨.wrongState, session, some output, none⟩

/-! ## Calls -/

variable (L) in
/-- A call of an entry point with its arguments. -/
inductive Call
  | sessionInit (rng : L.Rng) (role : UInt8) (ownMac peerMac : Option Mac) (channel : UInt8)
  | makeMessage1 (rng : L.Rng) (output : Option (List UInt8)) (outputCapacity : ℕ)
      (outputLength : Option ℕ)
  | processMessage1 (rng : L.Rng) (input : Option (List UInt8)) (inputLength : ℕ)
      (output : Option (List UInt8)) (outputCapacity : ℕ) (outputLength : Option ℕ)
  | processMessage2 (input : Option (List UInt8)) (inputLength : ℕ)
      (output : Option (List UInt8)) (outputCapacity : ℕ) (outputLength : Option ℕ)
  | processMessage3 (input : Option (List UInt8)) (inputLength : ℕ)
  | exportEspnowLmk (outputLmk : Option (List UInt8))

/-- Run a call against the stored session. -/
def Call.exec (session : Session L) : Call L → FfiRet L
  | .sessionInit rng role own peer channel =>
    lakersEdhocSessionInit rng role own peer channel session
  | .makeMessage1 rng output capacity length =>
    lakersEdhocMakeMessage1 rng output capacity length session
  | .processMessage1 rng input inputLength output capacity length =>
    lakersEdhocProcessMessage1 rng input inputLength output capacity length session
  | .processMessage2 input inputLength output capacity length =>
    lakersEdhocProcessMessage2 input inputLength output capacity length session
  | .processMessage3 input inputLength => lakersEdhocProcessMessage3 input inputLength session
  | .exportEspnowLmk outputLmk => lakersEdhocExportEspnowLmk outputLmk session

end EspNowEdhoc
