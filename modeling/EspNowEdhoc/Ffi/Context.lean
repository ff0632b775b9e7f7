import EspNowEdhoc.Ffi.Atomicity

/-!
# What the exporter context binds

The context is the purpose, the initiator's MAC, the responder's MAC and the channel, whichever of
the two boards builds it.

* `toList_copies`: what the four copies of `build_exporter_context` leave of an array, whatever it
  held; **`toList_buildExporterContext`**.
* `buildExporterContextChecked`: the copies with the checks of `copy_from_slice`, on any array.
* **`exporter_context_binds`**: the contexts of two sessions.
-/

set_option autoImplicit false

namespace EspNowEdhoc

variable {L : Lakers}

/-! ## The bytes of a context -/

section Bytes

variable {initiatorMac responderMac : List UInt8} {channel : UInt8}

/-- **The four copies** fill the array, whatever it held before. -/
theorem toList_copies (context : ExporterContext) (h₀ : 0 + exporterPurpose.length ≤ 27)
    (h₁ : 14 + initiatorMac.length ≤ 27) (h₂ : 20 + responderMac.length ≤ 27)
    (h₃ : 26 + [channel].length ≤ 27) (hi : initiatorMac.length = 6)
    (hr : responderMac.length = 6) :
    ((((context.copyAt 0 exporterPurpose h₀).copyAt 14 initiatorMac h₁).copyAt 20 responderMac
      h₂).copyAt 26 [channel] h₃).toList =
      exporterPurpose ++ initiatorMac ++ responderMac ++ [channel] := by
  have hp : exporterPurpose.length = 14 := rfl
  have hnil : ([] : List UInt8).length = 0 := rfl
  have hpurpose := Bytes.toList_copyAt (List.nil_append context.toList).symm hnil h₀
  have hinitiator := Bytes.toList_copyAt hpurpose hp h₁
  have hresponder := Bytes.toList_copyAt hinitiator (by simp [hp, hi]) h₂
  have hchannel := Bytes.toList_copyAt hresponder (by simp [hp, hi, hr]) h₃
  -- nothing is left of the array behind the channel
  rw [hchannel, List.drop_drop, List.drop_drop, List.drop_drop, List.drop_of_length_le,
    List.append_nil, List.nil_append]
  rw [List.Vector.toList_length, hp, hi, hr]
  exact le_rfl

theorem toList_buildExporterContext (hi : initiatorMac.length = 6) (hr : responderMac.length = 6) :
    (buildExporterContext initiatorMac responderMac channel hi hr).toList =
      exporterPurpose ++ initiatorMac ++ responderMac ++ [channel] :=
  toList_copies _ (by decide) (by omega) (by omega) (by simp) hi hr

/-- **Two contexts are equal when their parts are.** -/
theorem buildExporterContext_inj {initiatorMac' responderMac' : List UInt8} {channel' : UInt8}
    {hi : initiatorMac.length = 6} {hr : responderMac.length = 6} {hi' : initiatorMac'.length = 6}
    {hr' : responderMac'.length = 6} :
    buildExporterContext initiatorMac responderMac channel hi hr =
        buildExporterContext initiatorMac' responderMac' channel' hi' hr' ↔
      initiatorMac = initiatorMac' ∧ responderMac = responderMac' ∧ channel = channel' := by
  constructor
  · intro h
    have hlist := congrArg List.Vector.toList h
    rw [toList_buildExporterContext, toList_buildExporterContext] at hlist
    obtain ⟨hfront, hchannel⟩ := List.append_inj' hlist rfl
    obtain ⟨hfront, hresponder⟩ := List.append_inj' hfront (hr.trans hr'.symm)
    obtain ⟨-, hinitiator⟩ := List.append_inj' hfront (hi.trans hi'.symm)
    exact ⟨hinitiator, hresponder, List.singleton_inj.mp hchannel⟩
  · rintro ⟨rfl, rfl, rfl⟩
    rfl

/-- `build_exporter_context` on an array that need not be zeroed, with the checks of
`copy_from_slice`. -/
def buildExporterContextChecked (context : ExporterContext) (initiatorMac responderMac : List UInt8)
    (channel : UInt8) : Option ExporterContext := do
  let context ← context.copyFromSlice 0 exporterPurpose.length exporterPurpose
  let context ← context.copyFromSlice 14 20 initiatorMac
  let context ← context.copyFromSlice 20 26 responderMac
  context.copyFromSlice 26 27 [channel]

/-- **No copy goes out of range, and no byte is left as it was.** -/
theorem buildExporterContextChecked_eq (context : ExporterContext) (hi : initiatorMac.length = 6)
    (hr : responderMac.length = 6) :
    buildExporterContextChecked context initiatorMac responderMac channel =
      some (buildExporterContext initiatorMac responderMac channel hi hr) := by
  have hp : 0 + exporterPurpose.length = exporterPurpose.length := Nat.zero_add _
  have h14 : exporterPurpose.length ≤ 27 := by decide
  have hi' : 14 + initiatorMac.length = 20 := by omega
  have hr' : 20 + responderMac.length = 26 := by omega
  have hc : 26 + [channel].length = 27 := rfl
  unfold buildExporterContextChecked
  rw [Bytes.copyFromSlice_eq _ h14 hp, Option.bind_eq_bind, Option.bind_some,
    Bytes.copyFromSlice_eq _ (show 20 ≤ 27 by decide) hi', Option.bind_some,
    Bytes.copyFromSlice_eq _ (show 26 ≤ 27 by decide) hr', Option.bind_some,
    Bytes.copyFromSlice_eq _ le_rfl hc, Option.some.injEq]
  apply List.Vector.toList_injective
  rw [toList_buildExporterContext, toList_copies _ _ _ _ _ hi hr]

end Bytes

/-! ## The host tool -/

namespace LakersReference

/-- `EXPORTER_PURPOSE` of `lakers_reference`. -/
def exporterPurpose : List UInt8 := "ESP-NOW-LMK-v1".toList.map fun c => UInt8.ofNat c.toNat

/-- `build_exporter_context` of `lakers_reference`. -/
def buildExporterContext (initiatorMac responderMac : Mac) (channel : UInt8) : List UInt8 :=
  let context := []
  let context := context ++ exporterPurpose
  let context := context ++ initiatorMac.toList
  let context := context ++ responderMac.toList
  context ++ [channel]

end LakersReference

/-- **The firmware and the host tool build the same context.** -/
theorem toList_buildExporterContext_host (initiatorMac responderMac : Mac) (channel : UInt8) :
    (buildExporterContext initiatorMac.toList responderMac.toList channel
      initiatorMac.toList_length responderMac.toList_length).toList =
      LakersReference.buildExporterContext initiatorMac responderMac channel := by
  have hpurpose : LakersReference.exporterPurpose = exporterPurpose := by decide
  rw [toList_buildExporterContext, LakersReference.buildExporterContext, hpurpose, List.nil_append]

/-! ## Two sessions -/

/-- The MAC of the initiator, for a board of this role. -/
def initiatorMac (role : UInt8) (ownMac peerMac : List UInt8) : List UInt8 :=
  if role = Role.initiator.code then ownMac else peerMac

/-- The MAC of the responder, for a board of this role. -/
def responderMac (role : UInt8) (ownMac peerMac : List UInt8) : List UInt8 :=
  if role = Role.initiator.code then peerMac else ownMac

theorem createSession_exporterContext {rng : L.Rng} {role : UInt8} {ownMac peerMac : List UInt8}
    {channel : UInt8} {s : Session L} (h : createSession rng role ownMac peerMac channel = .ok s) :
    ∃ (hi : (initiatorMac role ownMac peerMac).length = 6)
      (hr : (responderMac role ownMac peerMac).length = 6), s.exporterContext? =
        some (buildExporterContext (initiatorMac role ownMac peerMac)
          (responderMac role ownMac peerMac) channel hi hr) := by
  unfold createSession at h
  split at h
  · cases h
  next hlen =>
  rw [not_or, not_or, not_not, not_not] at hlen
  obtain ⟨hown, hpeer, -⟩ := hlen
  dsimp only at h
  unfold initiatorMac responderMac
  split at h
  · next hrole =>
    split at h <;> cases h
    simp only [if_pos hrole]
    exact ⟨hown, hpeer, rfl⟩
  next hrole =>
  split at h
  · split at h <;> cases h
    simp only [if_neg hrole]
    exact ⟨hpeer, hown, rfl⟩
  · cases h

/-- **The exporter context binds the ordered pair and the channel.** The contexts of two sessions
are equal exactly when they name the same initiator, the same responder and the same channel: for
opposite roles when each board's own MAC is the other's peer MAC, for equal roles when own and peer
agree. The copies that build a context stay inside its 27 bytes and write every one of them, and the
host tool builds the same bytes. -/
theorem exporter_context_binds {rng₁ rng₂ : L.Rng} {role₁ role₂ : UInt8}
    {own₁ peer₁ own₂ peer₂ : List UInt8} {channel₁ channel₂ : UInt8} {s₁ s₂ : Session L}
    (h₁ : createSession rng₁ role₁ own₁ peer₁ channel₁ = .ok s₁)
    (h₂ : createSession rng₂ role₂ own₂ peer₂ channel₂ = .ok s₂) :
    ∃ ctx₁ ctx₂, s₁.exporterContext? = some ctx₁ ∧ s₂.exporterContext? = some ctx₂ ∧
      (ctx₁ = ctx₂ ↔ initiatorMac role₁ own₁ peer₁ = initiatorMac role₂ own₂ peer₂ ∧
        responderMac role₁ own₁ peer₁ = responderMac role₂ own₂ peer₂ ∧ channel₁ = channel₂) ∧
      (role₁ ≠ role₂ →
        (ctx₁ = ctx₂ ↔ own₁ = peer₂ ∧ peer₁ = own₂ ∧ channel₁ = channel₂)) ∧
      (role₁ = role₂ →
        (ctx₁ = ctx₂ ↔ own₁ = own₂ ∧ peer₁ = peer₂ ∧ channel₁ = channel₂)) ∧
      (∀ context : ExporterContext,
        buildExporterContextChecked context (initiatorMac role₁ own₁ peer₁)
          (responderMac role₁ own₁ peer₁) channel₁ = some ctx₁) ∧
      ∀ (initiator responder : Mac) (channel : UInt8),
        (buildExporterContext initiator.toList responder.toList channel initiator.toList_length
          responder.toList_length).toList =
          LakersReference.buildExporterContext initiator responder channel := by
  obtain ⟨hi₁, hr₁, hctx₁⟩ := createSession_exporterContext h₁
  obtain ⟨hi₂, hr₂, hctx₂⟩ := createSession_exporterContext h₂
  obtain ⟨r₁, hcode₁, -⟩ := createSession_ok h₁
  obtain ⟨r₂, hcode₂, -⟩ := createSession_ok h₂
  refine ⟨_, _, hctx₁, hctx₂, buildExporterContext_inj, fun hne => ?_, fun heq => ?_,
    fun context => buildExporterContextChecked_eq context hi₁ hr₁,
    toList_buildExporterContext_host⟩
  · rw [buildExporterContext_inj]
    subst hcode₁ hcode₂
    cases r₁ <;> cases r₂
    · exact absurd rfl hne
    · exact Iff.rfl
    · exact and_left_comm
    · exact absurd rfl hne
  · rw [buildExporterContext_inj]
    subst hcode₁ heq
    cases r₁
    · exact Iff.rfl
    · exact and_left_comm

/-- Two boards that name each other share a context. -/
theorem exporter_context_binds_sample :
    let create (role : Role) (own peer : List UInt8) :=
      createSession (L := Lakers.sample) (7 : UInt8) role.code own peer 1
    ∃ s₁ s₂, create .initiator [2, 0, 0, 0, 0, 1] [2, 0, 0, 0, 0, 2] = .ok s₁ ∧
      create .responder [2, 0, 0, 0, 0, 2] [2, 0, 0, 0, 0, 1] = .ok s₂ ∧
      ∃ ctx, s₁.exporterContext? = some ctx ∧ s₂.exporterContext? = some ctx := by
  intro create
  refine ⟨_, _, rfl, rfl, ?_⟩
  obtain ⟨ctx₁, ctx₂, h₁, h₂, -, hopposite, -⟩ := exporter_context_binds (L := Lakers.sample)
    (show create .initiator [2, 0, 0, 0, 0, 1] [2, 0, 0, 0, 0, 2] = .ok _ from rfl)
    (show create .responder [2, 0, 0, 0, 0, 2] [2, 0, 0, 0, 0, 1] = .ok _ from rfl)
  have heq : ctx₁ = ctx₂ := (hopposite (by decide)).mpr ⟨rfl, rfl, rfl⟩
  exact ⟨ctx₁, h₁, by rw [heq]; exact h₂⟩

end EspNowEdhoc
