import EspNowEdhoc.Host.Hex
import EspNowEdhoc.Pair.System

/-!
# The arguments of the host tool

The tool computes the reference LMK for two boards from their MACs and the channel.

* `parseArguments`; **`parse_arguments_iff`**: exactly what it accepts.
* **`reference_context`**: which arguments give the context that a board's LMK was exported under.
-/

set_option autoImplicit false

namespace EspNowEdhoc

namespace LakersReference

open Text Runs

/-! ## `main.rs` -/

/-- The MAC of six bytes. -/
def macOf (a b c d e f : UInt8) : Mac := ⟨[a, b, c, d, e, f], rfl⟩

/-- `DEFAULT_INITIATOR_MAC`. -/
def defaultInitiatorMac : Mac := macOf 0x02 0x00 0x00 0x00 0x00 0x01

/-- `DEFAULT_RESPONDER_MAC`. -/
def defaultResponderMac : Mac := macOf 0x02 0x00 0x00 0x00 0x00 0x02

/-- `DEFAULT_CHANNEL`. -/
def defaultChannel : UInt8 := 1

/-- `parse_arguments`, of the arguments after the name of the program. -/
def parseArguments (arguments : List String) : Except String (Mac × Mac × UInt8) :=
  match arguments with
  | [] => .ok (defaultInitiatorMac, defaultResponderMac, defaultChannel)
  | [initiator, responder, number] => do
    let initiatorMac ← parseMac initiator
    let responderMac ← parseMac responder
    let channel ← (u8FromStrRadix number 10).mapError fun _ => "invalid Wi-Fi channel: " ++ number
    if channel = 0 ∨ channel > 14 then
      .error ("Wi-Fi channel must be between 1 and 14: " ++ toString channel.toNat)
    else .ok (initiatorMac, responderMac, channel)
  | _ => .error "usage: cargo run --release -- <initiator-mac> <responder-mac> <channel>"

/-! ## What is accepted -/

/-- A channel that the tool accepts. -/
def IsChannel (channel : UInt8) : Prop := 1 ≤ channel.toNat ∧ channel.toNat ≤ 14

theorem isChannel_iff {channel : UInt8} : IsChannel channel ↔ ¬ (channel = 0 ∨ channel > 14) := by
  rw [IsChannel, gt_iff_lt, UInt8.lt_iff_toNat_lt, ← UInt8.toNat_inj, UInt8.toNat_zero]
  change _ ↔ ¬ (channel.toNat = 0 ∨ 14 < channel.toNat)
  omega

theorem u8FromStrRadix_eq_ok {s : String} {v : UInt8} :
    u8FromStrRadix s 10 = .ok v ↔ IsNumber 10 s.toList v.toNat := by
  rw [u8FromStrRadix, map_eq_ok]
  constructor
  · rintro ⟨n, hn, rfl⟩
    obtain ⟨hn, hle⟩ := (fromStrRadix_eq_ok (by decide)).mp hn
    rwa [UInt8.toNat_ofNat', Nat.mod_eq_of_lt (by omega)]
  · intro h
    have hle : v.toNat ≤ 255 := Nat.le_of_lt_succ v.toNat_lt
    exact ⟨v.toNat, (fromStrRadix_eq_ok (by decide)).mpr ⟨h, hle⟩, UInt8.ofNat_toNat⟩

theorem parseArguments_three {initiator responder number : String} {i r : Mac} {c : UInt8} :
    parseArguments [initiator, responder, number] = .ok (i, r, c) ↔
      parseMac initiator = .ok i ∧ parseMac responder = .ok r ∧ IsNumber 10 number.toList c.toNat ∧
        IsChannel c := by
  simp only [parseArguments, bind_eq_ok, mapError_eq_ok, u8FromStrRadix_eq_ok, isChannel_iff]
  constructor
  · rintro ⟨_, hi, _, hr, _, hc, h⟩
    split at h
    · cases h
    next hchannel =>
    cases h
    exact ⟨hi, hr, hc, hchannel⟩
  · rintro ⟨hi, hr, hc, hchannel⟩
    exact ⟨i, hi, r, hr, c, hc, if_neg hchannel⟩

/-- **What the tool accepts**: no arguments, for its defaults, or two MACs and the number of a
channel, which is any text of it in radix 10, with leading zeros or a `+`. -/
theorem parse_arguments_iff (arguments : List String) (i r : Mac) (c : UInt8) :
    parseArguments arguments = .ok (i, r, c) ↔
      (arguments = [] ∧ i = defaultInitiatorMac ∧ r = defaultResponderMac ∧ c = defaultChannel) ∨
        ∃ initiator responder number, arguments = [initiator, responder, number] ∧
          Reads (normalized initiator) i.toList ∧ Reads (normalized responder) r.toList ∧
            IsNumber 10 number.toList c.toNat ∧ IsChannel c := by
  constructor
  · intro h
    unfold parseArguments at h
    split at h
    · cases h
      exact .inl ⟨rfl, rfl, rfl, rfl⟩
    · next initiator responder number =>
      obtain ⟨hi, hr, hc⟩ := parseArguments_three.mp h
      exact .inr ⟨_, _, _, rfl, parseMac_eq_ok.mp hi, parseMac_eq_ok.mp hr, hc⟩
    · cases h
  · rintro (⟨rfl, rfl, rfl, rfl⟩ | ⟨_, _, _, rfl, hi, hr, hc⟩)
    · rfl
    · exact parseArguments_three.mpr ⟨parseMac_eq_ok.mpr hi, parseMac_eq_ok.mpr hr, hc⟩

/-! ## What the boards log -/

/-- `MACSTR` of `MAC2STR`, as `espnow_transport_print_mac` logs a MAC. -/
def macStr (mac : Mac) : String :=
  let hex (i : ℕ) : String := lowerHex 2 (mac.toList.getD i 0)
  hex 0 ++ ":" ++ hex 1 ++ ":" ++ hex 2 ++ ":" ++ hex 3 ++ ":" ++ hex 4 ++ ":" ++ hex 5

theorem parseMac_macStr (mac : Mac) : parseMac (macStr mac) = .ok mac :=
  parseMac_inserted (forall₂_digitOf fun _ => .inl rfl) (inserted_colons toList_lowerHex mac)

/-- **What is written is accepted**, if the channel is. -/
theorem parseArguments_written (initiator responder : Mac) {channel : UInt8}
    (hchannel : IsChannel channel) :
    parseArguments [macStr initiator, macStr responder, toString channel.toNat] =
      .ok (initiator, responder, channel) := by
  have hnumber : IsNumber 10 (toString channel.toNat).toList channel.toNat := by
    change IsNumber 10 (String.ofList (Nat.toDigits 10 channel.toNat)).toList channel.toNat
    rw [String.toList_ofList]
    exact isNumber_toDigits (by decide) (by decide) channel.toNat
  exact parseArguments_three.mpr
    ⟨parseMac_macStr initiator, parseMac_macStr responder, hnumber, hchannel⟩

/-! ## The LMK of a board -/

theorem buildExporterContext_host_inj {initiator responder initiator' responder' : Mac}
    {channel channel' : UInt8} :
    buildExporterContext initiator responder channel =
        buildExporterContext initiator' responder' channel' ↔
      initiator = initiator' ∧ responder = responder' ∧ channel = channel' := by
  rw [← toList_buildExporterContext_host, ← toList_buildExporterContext_host,
    List.Vector.toList_injective.eq_iff, buildExporterContext_inj,
    List.Vector.toList_injective.eq_iff, List.Vector.toList_injective.eq_iff]

section Boards

variable {L : Lakers} {ci cr : Config}

theorem toList_exporterContext_mutual (hmut : Mutual ci cr) : ci.exporterContext.toList =
    buildExporterContext ci.ownMac cr.ownMac ci.espnowChannel := by
  rw [← hmut.peer.1, ← toList_buildExporterContext_host]
  have hrole := hmut.initiator
  rcases ci with ⟨role, _, _, _, _, _⟩
  cases (hrole : role = .initiator)
  rfl

theorem isChannel_of_appMain {cfg : Config} {env : Env L} {created : Bool} {bootTick : UInt32}
    {d : Device L} (h : appMain cfg env created bootTick = some d) :
    IsChannel cfg.espnowChannel := by
  obtain ⟨-, -, -, -, -, hses⟩ := appMain_eq_some h
  unfold createSession at hses
  split at hses
  · cases hses
  next hlen =>
  rw [not_or, not_or] at hlen
  exact isChannel_iff.mpr hlen.2.2

/-- **The tool reproduces the key of the boards.** Two boards are configured for each other. If a
board of the two has an encrypted entry at any point of any run, then its LMK is the exporter output
of its completed session under label `0xF0` and the session's context, which the tool builds for
some arguments exactly if these name the MAC of the initiator, the MAC of the responder, in this
order, and the channel; and the tool accepts these as the boards log them. -/
theorem reference_context (hmut : Mutual ci cr) {cfg : Config} (hcfg : cfg = ci ∨ cfg = cr)
    {env₀ : Env L} {created : Bool} {bootTick : UInt32} {d₀ : Device L}
    (h₀ : appMain cfg env₀ created bootTick = some d₀) (steps : List (TaskStep L)) {lmk : Lmk}
    (hlmk : (run (Device.step cfg) d₀ steps).lmk? cfg = some lmk) :
    let session := (run (Device.step cfg) d₀ steps).session
    ∃ done ctx, session.done? = some done ∧ session.exporterContext? = some ctx ∧
      lmk = L.edhocExporter done 0xF0 ctx.toList 16 ∧
      (∀ i r c, buildExporterContext i r c = ctx.toList ↔
        i = ci.ownMac ∧ r = cr.ownMac ∧ c = ci.espnowChannel) ∧
      parseArguments [macStr ci.ownMac, macStr cr.ownMac, toString ci.espnowChannel.toNat] =
        .ok (ci.ownMac, cr.ownMac, ci.espnowChannel) := by
  have hat := (inv_run (inv_appMain h₀) steps).at_ahead
  obtain ⟨done, hdone, heq⟩ := hat.lmk_eq lmk hlmk
  obtain ⟨hctx, hchannel, hraw⟩ := hmut.either hcfg
  have hvalid : IsChannel ci.espnowChannel := by
    rw [← hchannel]
    exact isChannel_of_appMain h₀
  refine ⟨done, ci.exporterContext, hdone, ?_, ?_, fun i r c => ?_,
    parseArguments_written ci.ownMac cr.ownMac hvalid⟩
  · rw [← hctx]
    exact hat.context_of_done hdone
  · rw [heq, hraw, hctx]
    rfl
  · rw [toList_exporterContext_mutual hmut, buildExporterContext_host_inj]

end Boards

theorem reference_context_sample :
    let d := run (Device.step (Config.sample .initiator)) (Device.sample .initiator)
      (sampleSteps .initiator)
    d.lmk? (Config.sample .initiator) = some (Lakers.sample.edhocExporter (7, 9) 0xF0
      (buildExporterContext defaultInitiatorMac defaultResponderMac defaultChannel) 16) := by
  intro d
  obtain ⟨lmk, hlmk⟩ : ∃ lmk, d.lmk? (Config.sample .initiator) = some lmk :=
    Option.isSome_iff_exists.mp (by decide)
  have hmut : Mutual (Config.sample .initiator) (Config.sample .responder) := by decide
  obtain ⟨done, ctx, hdone, -, rfl, hctx, -⟩ :=
    reference_context hmut (.inl rfl) (appMain_sample .initiator) _ hlmk
  cases hdone.symm.trans (show d.session.prkOut? = some (7, 9) by decide)
  rw [hlmk, (hctx _ _ _).mpr (by decide)]

end LakersReference

end EspNowEdhoc
