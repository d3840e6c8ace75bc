import Etp.Session.Config
import Etp.Transfer.Announce
import Etp.Transfer.InFlight

/-!
# The limits of an outgoing transfer

What a transfer may have in flight is decided when it is registered: by its options, the
configuration of the session, and the hello of the peer. `sendReliableChunk` waits while a
chunk is not within these limits or the window of the peer, and only an acknowledgement or
a window wakes it; a transfer that has nothing in flight and waits for its own limits waits
forever.

* `outgoingLimits`: the limits that `registerOutgoing` computes;
* `never_blocked_iff`: a transfer without pending chunks does not wait when the window of the
  peer is the whole of what it can receive, exactly if its largest chunk is within the bytes it
  may have in flight (`waits_forever`), and within that window.
-/

namespace Etp.Pace

open Relation Session Transfer

/-! ## Registration -/

/-- The options of a transfer, with those of its pace. -/
structure Options extends Announce.TransferOptions where
  maxInFlight : ℤ := 0
  maxInFlightBytes : ℕ := 0
  ackTimeout : ℤ := 0
  retryLimit : ℤ := 0

/-- The limits of a transfer. -/
structure Limits where
  ackTimeout : ℤ
  retryLimit : ℤ
  maxInFlight : ℤ
  maxInFlightBytes : ℕ
  hasRemoteWindow : Bool
  deriving DecidableEq, Repr

/-- The number of chunks in flight is cut to that of the peer, if it has said one; the
    comparison is one of `uint32`s. -/
def cutInFlight (remote : Option Hello) (maxInFlight : ℤ) : ℤ :=
  match remote with
  | some h =>
    if 0 < h.maxInFlightChunks ∧ h.maxInFlightChunks < (maxInFlight % 2 ^ 32).toNat then
      h.maxInFlightChunks
    else maxInFlight
  | none => maxInFlight

/-- The number of chunks in flight before it is cut. -/
def wantedInFlight (c : SessionConfig) (opts : Options) : ℤ :=
  positiveOr c.flowControl.maxInFlightChunks opts.maxInFlight

/-- The limits that `registerOutgoing` computes, where `remote` is the hello of the peer, if
    there was one, and `caps` are the capabilities it has. -/
def outgoingLimits (c : SessionConfig) (remote : Option Hello) (caps : ℕ) (opts : Options) :
    Limits where
  ackTimeout := positiveOr c.flowControl.ackTimeout opts.ackTimeout
  retryLimit := positiveOr c.flowControl.retryLimit opts.retryLimit
  maxInFlight := cutInFlight remote (wantedInFlight c opts)
  maxInFlightBytes :=
    let bytes := nonzeroOr c.flowControl.maxInFlightBytes opts.maxInFlightBytes
    if c.flowControl.maxSendBufferBytes < bytes then c.flowControl.maxSendBufferBytes else bytes
  hasRemoteWindow := caps &&& capabilityFlowControl != 0 &&
    remote.any fun h => 0 < h.maxInFlightChunks

/-- `registerOutgoing`, up to the place of the transfer in the map of the session. -/
def registerOutgoing (c : SessionConfig) (remote : Option Hello) (caps id : ℕ) (opts : Options)
    (m : TransferBegin) : OutgoingTransfer :=
  let l := outgoingLimits c remote caps opts
  Transfer.registerOutgoing id l.retryLimit.toNat l.maxInFlight.toNat l.maxInFlightBytes
    l.hasRemoteWindow m

/-- What the goroutines of transfers read of a configuration. -/
def storageConfig (c : SessionConfig) : Storage.Config where
  session := c.session
  maxConcurrentTransfers := c.flowControl.maxConcurrentTransfers.toNat
  maxTransferBytes := c.flowControl.maxTransferBytes
  maxChunkSize := c.flowControl.maxChunkSize.toNat
  maxInFlightChunks := c.flowControl.maxInFlightChunks.toNat
  maxInFlightBytes := c.flowControl.maxInFlightBytes
  maxReceiveBufferBytes := c.flowControl.maxReceiveBufferBytes

/-- `normalizeTransferOptions`. -/
def normalizeOptions (c : SessionConfig) (remote : Option Hello) (opts : Options) : Options :=
  { opts with toTransferOptions :=
      Announce.normalizeTransferOptions (storageConfig c) remote opts.toTransferOptions }

/-! ## The sizes of a normalised configuration -/

section Normal

variable {c : SessionConfig} (hc : c.Normal) (opts : Options)

include hc

theorem wantedInFlight_pos : 0 < wantedInFlight c opts :=
  positiveOr_pos hc.inFlightChunks_pos

theorem maxInFlight_pos (remote : Option Hello) (caps : ℕ) :
    0 < (outgoingLimits c remote caps opts).maxInFlight := by
  have hwanted := wantedInFlight_pos hc opts
  simp only [outgoingLimits, cutInFlight]
  split
  · split <;> omega
  · exact hwanted

theorem toNat_maxChunkSize : (c.flowControl.maxChunkSize.toNat : ℤ) = c.flowControl.maxChunkSize :=
  Int.toNat_of_nonneg hc.chunk_bounds.1.le

/-- The chunks of a normalised configuration fit into frames. -/
def side : Announce.Side where
  toConfig := storageConfig c
  chunk_pos := by
    have hpos := hc.chunk_bounds.1
    simp only [storageConfig]
    omega
  chunk_lt := by
    have hlt := hc.chunk_bounds.2
    simp only [storageConfig]
    omega
  frame_le := hc.frame_le

omit hc in
/-- The options of a transfer keep the size of its chunks, or cut it to that of the peer. -/
theorem normalize_chunkSize_cases (cfg : Storage.Config) (remote : Option Hello)
    (opts : Announce.TransferOptions) :
    (Announce.normalizeTransferOptions cfg remote opts).chunkSize =
        Announce.localChunkSize cfg opts.chunkSize ∨
      ∃ h, remote = some h ∧ 0 < h.maxChunkSize ∧
        h.maxChunkSize < (Announce.localChunkSize cfg opts.chunkSize % 2 ^ 32).toNat ∧
        (Announce.normalizeTransferOptions cfg remote opts).chunkSize = h.maxChunkSize := by
  cases remote with
  | none => exact .inl rfl
  | some h =>
    by_cases hcut : 0 < h.maxChunkSize ∧
        h.maxChunkSize < (Announce.localChunkSize cfg opts.chunkSize % 2 ^ 32).toNat
    · refine .inr ⟨h, rfl, hcut.1, hcut.2, ?_⟩
      simp only [Announce.normalizeTransferOptions, Announce.TransferOptions.chunk, hcut.1, hcut.2,
        and_self, if_true]
    · refine .inl ?_
      simp only [Announce.normalizeTransferOptions, Announce.TransferOptions.chunk, hcut, if_false]

/-- Normalised options have chunks within those of the session. -/
theorem normalizeOptions_bounds (remote : Option Hello) :
    0 < (normalizeOptions c remote opts).chunkSize ∧
      (normalizeOptions c remote opts).chunkSize ≤ c.flowControl.maxChunkSize := by
  have hle := Announce.localChunkSize_le (side hc).toConfig opts.chunkSize
  have hpos : 0 < Announce.localChunkSize (side hc).toConfig opts.chunkSize :=
    Announce.localChunkSize_pos _
  have hlt := (side hc).chunk_lt
  have hcases := normalize_chunkSize_cases (side hc).toConfig remote opts.toTransferOptions
  rw [← toNat_maxChunkSize hc]
  show 0 < (Announce.normalizeTransferOptions (side hc).toConfig remote _).chunkSize ∧
    (Announce.normalizeTransferOptions (side hc).toConfig remote _).chunkSize ≤
      (side hc).maxChunkSize
  rcases hcases with heq | ⟨h, -, hmax, hcut, heq⟩
  · rw [heq]
    exact ⟨hpos, hle⟩
  · rw [heq]
    omega

/-- Where the hello of the peer was known, they are within those of the peer. -/
theorem normalizeOptions_chunk_le {h : Hello} (hpos : 0 < h.maxChunkSize) :
    (normalizeOptions c (some h) opts).chunk ≤ h.maxChunkSize := by
  have hle : (normalizeOptions c (some h) opts).chunkSize ≤ h.maxChunkSize :=
    @Announce.normalize_chunkSize_le (side hc) _ hpos _
  have hbounds := normalizeOptions_bounds hc opts (some h)
  rw [Announce.TransferOptions.chunk]
  omega

theorem normalizeOptions_chunk (remote : Option Hello) :
    ((normalizeOptions c remote opts).chunk : ℤ) ≤ c.flowControl.maxChunkSize := by
  have hbounds := normalizeOptions_bounds hc opts remote
  rw [Announce.TransferOptions.chunk]
  omega

end Normal

/-! ## Waiting for nothing -/

/-- The window shows all that a session of this configuration can receive. -/
def Whole (peer : SessionConfig) (ot : OutgoingTransfer) : Prop :=
  ot.remoteWindowBytes = Storage.windowBytes (storageConfig peer) 0 ∧
    ot.remoteWindowChunks = (peer.flowControl.maxInFlightChunks % 2 ^ 32).toNat

theorem windowBytes_empty {cfg : Storage.Config} (hpos : 0 < cfg.maxInFlightBytes) :
    Storage.windowBytes cfg 0 = min cfg.maxInFlightBytes cfg.maxReceiveBufferBytes := by
  simp only [Storage.windowBytes, Nat.sub_zero]
  split_ifs <;> omega

/-- The window of a session that has received nothing has room for one of its chunks. -/
theorem whole_room {peer : SessionConfig} (hp : peer.Normal) {role : String} {expected : Role}
    (hok : checkRemoteHello (peer.hello role) expected = none) :
    (peer.hello role).maxChunkSize ≤ Storage.windowBytes (storageConfig peer) 0 ∧
      (peer.flowControl.maxInFlightChunks % 2 ^ 32).toNat ≠ 0 := by
  obtain ⟨hpos, hlt⟩ := hp.chunk_bounds
  obtain ⟨hin, -, hreceive⟩ := hp.chunk_within
  have hinflight : peer.flowControl.maxInFlightChunks % 2 ^ 32 ≠ 0 := by
    intro hzero
    have hlost : (peer.hello role).maxInFlightChunks = 0 := by
      rw [SessionConfig.hello, hzero]
      rfl
    simp only [checkRemoteHello, hlost, true_or, or_true, if_true] at hok
    split_ifs at hok
  constructor
  · rw [windowBytes_empty hp.usable.inFlight_pos, SessionConfig.hello]
    show (_ % _ : ℤ).toNat ≤
      min peer.flowControl.maxInFlightBytes peer.flowControl.maxReceiveBufferBytes
    omega
  · omega

/-- The bytes in flight have room for a chunk, unless the options say otherwise. -/
theorem registered_room_iff {c : SessionConfig} (hc : c.Normal) (launch register : Option Hello)
    (caps : ℕ) (opts : Options) {n : ℕ} (hn : n ≤ (normalizeOptions c launch opts).chunk) :
    n ≤ (outgoingLimits c register caps (normalizeOptions c launch opts)).maxInFlightBytes ↔
      opts.maxInFlightBytes = 0 ∨ n ≤ opts.maxInFlightBytes := by
  have hchunk := normalizeOptions_chunk hc opts launch
  obtain ⟨hin, hsend, -⟩ := hc.chunk_within
  have hkept : (normalizeOptions c launch opts).maxInFlightBytes = opts.maxInFlightBytes := rfl
  simp only [outgoingLimits, nonzeroOr, hkept]
  split_ifs <;> omega

/-- The whole window of a peer has room for a chunk whose size was cut to that of its hello. -/
theorem cut_room {c peer : SessionConfig} (hc : c.Normal) (hp : peer.Normal)
    {launch : Option Hello} {opts : Options} {role : String} {expected : Role}
    (hok : checkRemoteHello (peer.hello role) expected = none)
    (hknown : launch = some (peer.hello role) ∨
      (normalizeOptions c launch opts).chunk ≤ (peer.hello role).maxChunkSize) :
    (normalizeOptions c launch opts).chunk ≤ Storage.windowBytes (storageConfig peer) 0 := by
  have hroom := (whole_room hp hok).1
  rcases hknown with rfl | hle
  · exact (normalizeOptions_chunk_le hc opts (Announce.limits_pos hok).1).trans hroom
  · exact hle.trans hroom

open Logged

/-- The peer may send a window before the first chunk. -/
theorem first_window (ot : OutgoingTransfer) {m : TransferBegin} (hsend : m.sendable = true)
    (D : Bytes) (windowBytes windowChunks : ℕ) :
    ∃ s : Logged, ReflTransGen (Logged.Step m D) ⟨Upload.fresh ot, []⟩ s ∧
      s.up.snd.body = .next 0 ∧ s.up.snd.ot = ot.handleWindow windowBytes windowChunks :=
  ⟨_, .head (.own _ _ (.begin _ rfl hsend) nofun (.inl rfl)) (.single
    (.answer _ _ (.reply (.window windowBytes windowChunks) _ (.reply _ _ rfl)))), rfl, rfl⟩

/-- In every run of a sender against a peer that sends what it likes, the next chunk does not
    wait when no chunk is pending and there is no window, or it is the whole of the peer. This
    is so exactly if the bytes in flight were not set, or not to less than the largest chunk,
    and that chunk is within the window; as it is where the hello of the peer was known, or has
    no smaller chunks. -/
theorem never_blocked_iff (c peer : SessionConfig) (role : String) (expected : Role)
    (launch register : Option Hello) (caps id : ℕ) (opts : Options) (D : Bytes) (flags : ℕ)
    (checksum : Bytes) :
    let opts' := normalizeOptions (normalizeSessionConfig c) launch opts
    let m := announce D opts'.chunk flags checksum
    let h := (normalizeSessionConfig peer).hello role
    let largest := min opts'.chunk D.length
    let window := Storage.windowBytes (storageConfig (normalizeSessionConfig peer)) 0
    checkRemoteHello h expected = none → m.sendable = true →
    ((∀ (s₀ s : Logged) (k : ℕ),
      Started (registerOutgoing (normalizeSessionConfig c) register caps id opts' m) s₀ →
      ReflTransGen (Logged.Step m D) s₀ s →
      s.up.snd.body = .next k → s.up.snd.ot.pending = [] →
      (s.up.snd.ot.hasRemoteWindow = false ∨ Whole (normalizeSessionConfig peer) s.up.snd.ot) →
      s.up.snd.ot.blocked (m.chunk D k).length = false) ↔
    (opts.maxInFlightBytes = 0 ∨ largest ≤ opts.maxInFlightBytes) ∧ largest ≤ window) ∧
    (launch = some h ∨ opts'.chunk ≤ h.maxChunkSize → largest ≤ window) := by
  intro opts' m h largest window hok hsend
  have hc := normalize_normal c
  have hp := normalize_normal peer
  have hlargest : largest ≤ opts'.chunk := Nat.min_le_left _ _
  refine ⟨⟨fun hfree => ?_, ?_⟩, fun hknown => hlargest.trans (cut_room hc hp hok hknown)⟩
  · -- the peer sends its whole window before the first chunk
    have hchunks := (whole_room hp hok).2
    have hfirst : (m.chunk D 0).length = largest := by
      rw [TransferBegin.chunk, Piece.length_piece, Nat.zero_mul, Nat.sub_zero]
      rfl
    obtain ⟨s, hrun, hbody, hot⟩ := first_window (registerOutgoing (normalizeSessionConfig c)
      register caps id opts' m) hsend D window
      ((normalizeSessionConfig peer).flowControl.maxInFlightChunks % 2 ^ 32).toNat
    have hnext := hfree _ s 0 (.inl rfl) hrun hbody (by rw [hot]; rfl)
      (.inr (by rw [hot]; exact ⟨rfl, rfl⟩))
    rw [hfirst, hot] at hnext
    simp only [OutgoingTransfer.blocked, Bool.or_eq_false_iff, Bool.and_eq_false_imp,
      decide_eq_false_iff_not, not_lt] at hnext
    refine ⟨(registered_room_iff hc launch register caps opts hlargest).mp ?_, (hnext.2 rfl).1⟩
    exact (Nat.le_add_left _ _).trans hnext.1.2
  · rintro ⟨hbytes, hwindow⟩ s₀ s k hstart hrun - hpending hwhole
    have hflight := Run.invariant _ (flight_started hstart) (fun _ _ h hs => flight_step rfl h hs)
      hrun
    have hsize : (m.chunk D k).length ≤ largest := by
      rw [TransferBegin.chunk, Piece.length_piece]
      exact min_le_min_left _ (Nat.sub_le _ _)
    -- nothing is in flight
    have hnone : s.up.snd.ot.pendingBytes = 0 := by
      rw [hflight.inFlight.pendingBytes, hpending]
      rfl
    have hcount : 0 < s.up.snd.ot.maxInFlight := by
      have hpos := maxInFlight_pos hc opts' register caps
      rw [hflight.limits.1]
      omega
    have hlimit : largest ≤ s.up.snd.ot.maxInFlightBytes := by
      rw [hflight.limits.2]
      exact (registered_room_iff hc launch register caps opts hlargest).mpr hbytes
    simp only [OutgoingTransfer.blocked, hpending, List.length_nil, hnone, Bool.or_eq_false_iff,
      Bool.and_eq_false_imp, decide_eq_false_iff_not, beq_eq_false_iff_ne]
    refine ⟨⟨by omega, by omega⟩, fun htrue => ?_⟩
    rcases hwhole with hfalse | ⟨hbytes', hchunks'⟩
    · rw [htrue] at hfalse
      cases hfalse
    · rw [hbytes', hchunks']
      exact ⟨not_lt.mpr (hsize.trans hwindow), (whole_room hp hok).2⟩

/-- Two bytes in one chunk, with `n` bytes in flight. -/
def twoBytes (n : ℕ) : Options :=
  normalizeOptions (normalizeSessionConfig {}) (some ((normalizeSessionConfig {}).hello "server"))
    { totalSize := 2, maxInFlightBytes := n }

/-- Options with one byte in flight are accepted; the first chunk, of two bytes, then waits
    although nothing is in flight and there is no window. -/
theorem waits_forever :
    let c := normalizeSessionConfig {}
    let h := (normalizeSessionConfig {}).hello "server"
    let m := announce [7, 8] (twoBytes 1).chunk 0 []
    Announce.validateOutgoingTransfer (storageConfig c)
      ⟨some h, h.maxFrameBytes, h.capabilities⟩ (twoBytes 1).toTransferOptions = none ∧
    ∃ s, ReflTransGen (Logged.Step m [7, 8])
        ⟨Upload.fresh (registerOutgoing c (some h) 0 1 (twoBytes 1) m), []⟩ s ∧
      s.up.snd.body = .next 0 ∧ s.up.snd.ot.pending = [] ∧ s.up.snd.ot.hasRemoteWindow = false ∧
      s.up.snd.ot.blocked (m.chunk [7, 8] 0).length = true :=
  ⟨rfl, _, .single (.own _ _ (.begin _ rfl rfl) nofun (.inl rfl)), rfl, rfl, rfl, rfl⟩

/-- With two bytes in flight, which is less than a chunk may have, the only chunk goes out. -/
theorem never_blocked_two :
    let c := normalizeSessionConfig {}
    let h := (normalizeSessionConfig {}).hello "server"
    let m := announce [7, 8] (twoBytes 2).chunk 0 []
    ∃ s, ReflTransGen (Logged.Step m [7, 8])
        ⟨Upload.fresh (registerOutgoing c (some h) allCapabilities 1 (twoBytes 2) m), []⟩ s ∧
      s.up.snd.ot.pending = [] ∧ s.up.snd.ot.hasRemoteWindow = true ∧
      s.up.snd.ot.blocked (m.chunk [7, 8] 0).length = false := by
  intro c h m
  have hsend : m.sendable = true := by decide
  -- the window of the peer is received
  obtain ⟨s, hrun, hbody, hot⟩ := first_window (registerOutgoing c (some h) allCapabilities 1
    (twoBytes 2) m) hsend [7, 8] (8 <<< 20) 16
  have hpending : s.up.snd.ot.pending = [] := by rw [hot]; rfl
  have hwhole : Whole c s.up.snd.ot := by
    rw [hot]
    constructor <;> decide
  obtain ⟨hiff, hroom⟩ := never_blocked_iff {} {} "server" .server (some h) (some h) allCapabilities
    1 { totalSize := 2, maxInFlightBytes := 2 } [7, 8] 0 [] (by decide) hsend
  refine ⟨s, hrun, hpending, by rw [hot]; rfl, ?_⟩
  exact hiff.mpr ⟨.inr (by decide), hroom (.inl rfl)⟩ _ s 0 (.inl rfl) hrun hbody hpending
    (.inr hwhole)

end Etp.Pace
