import VtRouter.Library.Framing
import VtRouter.Model.Tunnel

/-!
# What goes in at one tap comes out at the other

`Sending` and `Receiving` say what the bytes an end has sent and read are, in terms of the frames
it took from its tap and gave to it: whole frames behind their headers, and a part of the next
one.  Both are kept by each step of the end on its own (`sending_step`, `receiving_step`,
`torn_step`), however the reads cut the stream into pieces.  The stream joins them (`Direction`),
and since frames are cut where they were joined, the frames that come out are the first of those
that went in.

When the sender goes away in the middle of a frame, `read_n` returns `0`, and the receiver writes
an empty frame to its tap before it sees that the stream has ended (`Torn`).
-/

set_option autoImplicit false

namespace VtRouter.Analysis

open Library VtRouter.Model
open VtRouter.Model.Tunnel hiding bufSize

/-! ## Headers and buffers -/

/-- The framing of the tunnel. -/
def tunnelFraming : Framing UInt8 where
  width := 2
  bound := 65536
  header := htons
  value := ntohs
  width_pos := by decide
  length_header _ := rfl
  value_header n hn := by
    have hhigh : (UInt8.ofNat (n / 256)).toNat = n / 256 := by
      rw [UInt8.toNat_ofNat', Nat.mod_eq_of_lt (by omega)]
    have hlow : (UInt8.ofNat n).toNat = n % 256 := UInt8.toNat_ofNat'
    show 256 * (UInt8.ofNat (n / 256)).toNat + (UInt8.ofNat n).toNat = n
    omega

theorem ntohs_lt (plength : List UInt8) : ntohs plength < 65536 := by
  have hhigh := (plength.getD 0 0).toNat_lt
  have hlow := (plength.getD 1 0).toNat_lt
  unfold ntohs
  omega

theorem length_overwrite {buf data : List UInt8} {offset : ℕ}
    (h : offset + data.length ≤ buf.length) : (overwrite buf offset data).length = buf.length := by
  unfold overwrite
  simp only [List.length_append, List.length_take, List.length_drop]
  omega

/-- INTERNAL: the bytes in front of the end of a write. -/
theorem take_overwrite {buf data : List UInt8} {offset : ℕ} (h : offset ≤ buf.length) :
    (overwrite buf offset data).take (offset + data.length) = buf.take offset ++ data := by
  have hlen : (buf.take offset).length = offset := List.length_take_of_le h
  unfold overwrite
  rw [List.take_append, hlen, List.take_of_length_le (by omega), Nat.add_sub_cancel_left,
    List.take_left]

/-- What holds of the variables of an end at all times. -/
structure EndOk (e : End) : Prop where
  buffer : e.buffer.length = Tunnel.bufSize
  plength : e.plength.length = 2
  nread : e.nread ≤ Tunnel.bufSize
  header : e.pc = .writeLength → e.plength = htons e.nread
  length : e.pc = .readLength → 0 < e.left ∧ e.left ≤ 2
  frame : e.pc = .readFrame → 0 < e.left ∧ e.left ≤ ntohs e.plength ∧
    ntohs e.plength - e.left ≤ Tunnel.bufSize

theorem endOk_init : EndOk End.init where
  buffer := List.length_replicate
  plength := rfl
  nread := Nat.zero_le _
  header := nofun
  length := nofun
  frame := nofun

theorem endOk_testNet {e : End} (h : EndOk e) : EndOk (testNet e) := by
  unfold testNet
  split
  · exact ⟨h.buffer, h.plength, h.nread, nofun, fun _ => ⟨Nat.zero_lt_two, Nat.le_refl 2⟩, nofun⟩
  · exact ⟨h.buffer, h.plength, h.nread, nofun, nofun, nofun⟩

theorem endOk_tapRead {e : End} (h : EndOk e) (frame : Frame) : EndOk (tapRead e frame) := by
  have hle : (frame.take Tunnel.bufSize).length ≤ Tunnel.bufSize := List.length_take_le _ _
  refine ⟨?_, rfl, hle, fun _ => rfl, nofun, nofun⟩
  show (overwrite e.buffer 0 (frame.take Tunnel.bufSize)).length = _
  rw [length_overwrite (by rw [h.buffer]; omega), h.buffer]

/-- INTERNAL: the three ways on behind a read of the length.
SOURCE: simpletun.c:117-130, 353-362 -/
theorem endOk_lengthRead {e : End} (h : EndOk e) (hpc : e.pc = .readLength) {chunk : List UInt8}
    (hlen : chunk.length ≤ e.left) : EndOk (lengthRead e chunk) := by
  obtain ⟨hpos, hle⟩ := h.length hpc
  have hplength : (overwrite e.plength (2 - e.left) chunk).length = 2 := by
    rw [length_overwrite (by rw [h.plength]; omega), h.plength]
  unfold lengthRead
  split
  · exact ⟨h.buffer, h.plength, h.nread, nofun, nofun, nofun⟩
  · dsimp only
    split
    · rename_i hleft
      have hrange : 0 < e.left - chunk.length ∧ e.left - chunk.length ≤ 2 := by omega
      exact ⟨h.buffer, hplength, h.nread, by simp [hpc], fun _ => hrange, by simp [hpc]⟩
    · split
      · exact ⟨h.buffer, hplength, Nat.zero_le _, nofun, nofun, nofun⟩
      · rename_i hzero
        refine ⟨h.buffer, hplength, h.nread, nofun, nofun, fun _ =>
          ⟨Nat.pos_of_ne_zero hzero, Nat.le_refl _, ?_⟩⟩
        rw [Nat.sub_self]
        exact Nat.zero_le _

/-- INTERNAL: the ways on behind a read of the frame.
SOURCE: simpletun.c:117-130, 362 -/
theorem endOk_frameRead {e : End} (h : EndOk e) (hpc : e.pc = .readFrame) {chunk : List UInt8}
    (hlen : chunk.length ≤ e.left) : EndOk (frameRead e chunk) := by
  obtain ⟨hpos, hle, hoffset⟩ := h.frame hpc
  unfold frameRead
  split
  · exact ⟨h.buffer, h.plength, Nat.zero_le _, nofun, nofun, nofun⟩
  · dsimp only
    split
    · exact ⟨h.buffer, h.plength, h.nread, nofun, nofun, nofun⟩
    · rename_i hfits
      have hbuffer : (overwrite e.buffer (ntohs e.plength - e.left) chunk).length =
          Tunnel.bufSize := by
        rw [length_overwrite (by rw [h.buffer]; omega), h.buffer]
      split
      · rename_i hleft
        have hrange : 0 < e.left - chunk.length ∧ e.left - chunk.length ≤ ntohs e.plength ∧
            ntohs e.plength - (e.left - chunk.length) ≤ Tunnel.bufSize := by omega
        exact ⟨hbuffer, h.plength, h.nread, by simp [hpc], by simp [hpc], fun _ => hrange⟩
      · have hnread : ntohs e.plength ≤ Tunnel.bufSize := by omega
        exact ⟨hbuffer, h.plength, hnread, nofun, nofun, nofun⟩

/-- **The variables of an end stay in order**, whatever its environment does. -/
theorem endOk_step {e e' : End} {act : EndAct} (h : EndOk e) (hs : EndStep e act e') :
    EndOk e' := by
  cases hs with
  | interrupted hpc => exact h
  | readTap frame hpc => exact endOk_tapRead h frame
  | frameSent nwrite hpc => exact endOk_testNet h
  | lengthChunk chunk hpc hne hlen => exact endOk_lengthRead h hpc hlen
  | frameChunk chunk hpc hne hlen => exact endOk_frameRead h hpc hlen
  | netReady hpc =>
      exact ⟨h.buffer, h.plength, h.nread, nofun, fun _ => ⟨Nat.zero_lt_two, Nat.le_refl 2⟩, nofun⟩
  | frameEnd hpc => exact ⟨h.buffer, h.plength, Nat.zero_le _, nofun, nofun, nofun⟩
  | _ => exact ⟨h.buffer, h.plength, h.nread, nofun, nofun, nofun⟩

/-! ## Histories of an end -/

/-- The frame a step takes from the tap. -/
def frameIn : EndAct → Option Frame
  | .readTap (some frame) => some (frame.take Tunnel.bufSize)
  | _ => none

/-- The frame a step gives to the tap. -/
def frameOut : EndAct → Option Frame
  | .writeTap data true => some data
  | _ => none

/-- The bytes a step puts on the connection. -/
def bytesOut : EndAct → List UInt8
  | .writeNet data (some nwrite) => data.take nwrite
  | _ => []

/-- The bytes a step takes off the connection. -/
def bytesIn : EndAct → List UInt8
  | .readNet (some chunk) => chunk
  | _ => []

def framesRead (acts : List EndAct) : List Frame := acts.filterMap frameIn

def framesWritten (acts : List EndAct) : List Frame := acts.filterMap frameOut

def bytesSent (acts : List EndAct) : List UInt8 := acts.flatMap bytesOut

def bytesRead (acts : List EndAct) : List UInt8 := acts.flatMap bytesIn

@[simp] theorem framesRead_snoc (acts : List EndAct) (act : EndAct) :
    framesRead (acts ++ [act]) = framesRead acts ++ (frameIn act).toList := by
  rw [framesRead, List.filterMap_append]
  cases h : frameIn act <;> simp [framesRead, h]

@[simp] theorem framesWritten_snoc (acts : List EndAct) (act : EndAct) :
    framesWritten (acts ++ [act]) = framesWritten acts ++ (frameOut act).toList := by
  rw [framesWritten, List.filterMap_append]
  cases h : frameOut act <;> simp [framesWritten, h]

@[simp] theorem bytesSent_snoc (acts : List EndAct) (act : EndAct) :
    bytesSent (acts ++ [act]) = bytesSent acts ++ bytesOut act := by
  simp [bytesSent]

@[simp] theorem bytesRead_snoc (acts : List EndAct) (act : EndAct) :
    bytesRead (acts ++ [act]) = bytesRead acts ++ bytesIn act := by
  simp [bytesRead]

/-- INTERNAL: a process that has gone takes no step. -/
theorem not_gone_of_endStep {e e' : End} {act : EndAct} (h : EndStep e act e') : e.gone = false := by
  cases h with
  | netFailed hpc => rcases hpc with hpc | hpc <;> simp [End.gone, hpc]
  | _ => simp [End.gone, *]

/-- INTERNAL: an end that is none of the three has not gone. -/
theorem gone_of_pc {e : End} (h : e.pc = .returned ∨ e.pc = .exited ∨ e.pc = .overrun) :
    e.gone = true := decide_eq_true h

/-! ## The sender -/

/-- A call of `write` that accepts all it is given. -/
def wholeWrite : EndAct → Bool
  | .writeNet data (some nwrite) => nwrite = data.length
  | _ => true

/-- The part of the frame in hand that is still to be sent. -/
def unwritten (e : End) : List UInt8 :=
  match e.pc with
  | .writeLength => e.plength ++ e.buffer.take e.nread
  | .writeFrame => e.buffer.take e.nread
  | _ => []

/-- What has been sent, and what is still to be sent, are the frames from the tap; a process that
has gone may have left something unsent. -/
def Sending (e : End) (acts : List EndAct) : Prop :=
  ∃ more, tunnelFraming.encode (framesRead acts) = bytesSent acts ++ more ∧
    (e.gone = false → more = unwritten e)

theorem unwritten_eq_nil {e : End} (h : e.pc ≠ .writeLength ∧ e.pc ≠ .writeFrame) :
    unwritten e = [] := by
  unfold unwritten
  split
  · exact absurd ‹_› h.1
  · exact absurd ‹_› h.2
  · rfl

/-- INTERNAL: a step that has nothing to do with the frame in hand. -/
theorem sending_of_idle {e e' : End} {act : EndAct} {acts : List EndAct} (h : Sending e acts)
    (hgone : e.gone = false) (hpc : e.pc ≠ .writeLength ∧ e.pc ≠ .writeFrame)
    (hpc' : e'.pc ≠ .writeLength ∧ e'.pc ≠ .writeFrame) (hin : frameIn act = none)
    (hout : bytesOut act = []) : Sending e' (acts ++ [act]) := by
  obtain ⟨more, heq, hmore⟩ := h
  refine ⟨more, ?_, fun _ => ?_⟩
  · rw [framesRead_snoc, bytesSent_snoc, hin, hout, Option.toList_none, List.append_nil,
      List.append_nil, heq]
  · rw [hmore hgone, unwritten_eq_nil hpc, unwritten_eq_nil hpc']

/-- INTERNAL: behind a failure what is unsent stays unsent. -/
theorem sending_of_gone {e e' : End} {act : EndAct} {acts : List EndAct} (h : Sending e acts)
    (hgone' : e'.gone = true) (hin : frameIn act = none) (hout : bytesOut act = []) :
    Sending e' (acts ++ [act]) := by
  obtain ⟨more, heq, -⟩ := h
  refine ⟨more, ?_, fun hgone => ?_⟩
  · rw [framesRead_snoc, bytesSent_snoc, hin, hout, Option.toList_none, List.append_nil,
      List.append_nil, heq]
  · rw [hgone'] at hgone
    cases hgone

theorem testNet_pc (e : End) : (testNet e).pc ≠ .writeLength ∧ (testNet e).pc ≠ .writeFrame := by
  unfold testNet
  split <;> exact ⟨nofun, nofun⟩

theorem lengthRead_pc {e : End} (hpc : e.pc = .readLength) (chunk : List UInt8) :
    (lengthRead e chunk).pc ≠ .writeLength ∧ (lengthRead e chunk).pc ≠ .writeFrame := by
  unfold lengthRead
  dsimp only
  split
  · exact ⟨nofun, nofun⟩
  · split
    · simp [hpc]
    · split <;> exact ⟨nofun, nofun⟩

theorem frameRead_pc {e : End} (hpc : e.pc = .readFrame) (chunk : List UInt8) :
    (frameRead e chunk).pc ≠ .writeLength ∧ (frameRead e chunk).pc ≠ .writeFrame := by
  unfold frameRead
  dsimp only
  split
  · exact ⟨nofun, nofun⟩
  · split
    · exact ⟨nofun, nofun⟩
    · split
      · simp [hpc]
      · exact ⟨nofun, nofun⟩

/-- **The sender.**  As long as no write is short, each step keeps the account of what was sent.
SOURCE: simpletun.c:332-346 -/
theorem sending_step {e e' : End} {act : EndAct} {acts : List EndAct} (hs : EndStep e act e')
    (hwhole : wholeWrite act = true) (h : Sending e acts) : Sending e' (acts ++ [act]) := by
  have hgone := not_gone_of_endStep hs
  cases hs with
  | interrupted hpc | tapReady net hpc | netReady hpc | tapWritten hpc =>
      exact sending_of_idle h hgone (by simp [hpc]) (by simp [hpc]) rfl rfl
  | selectFailed hpc | tapFailed hpc | lengthFailed hpc | frameFailed hpc | netFailed hpc
  | tapWriteFailed hpc => exact sending_of_gone h (gone_of_pc (by simp)) rfl rfl
  | lengthEnd hpc | frameEnd hpc =>
      exact sending_of_idle h hgone (by simp [hpc]) (by simp) rfl rfl
  | lengthChunk chunk hpc hne hlen =>
      exact sending_of_idle h hgone (by simp [hpc]) (lengthRead_pc hpc chunk) rfl rfl
  | frameChunk chunk hpc hne hlen =>
      exact sending_of_idle h hgone (by simp [hpc]) (frameRead_pc hpc chunk) rfl rfl
  | readTap frame hpc =>
      obtain ⟨more, heq, hmore⟩ := h
      rw [hmore hgone, unwritten_eq_nil (by simp [hpc]), List.append_nil] at heq
      have htake : (overwrite e.buffer 0 (frame.take Tunnel.bufSize)).take
          (frame.take Tunnel.bufSize).length = frame.take Tunnel.bufSize := by
        have hfront : (overwrite e.buffer 0 (frame.take Tunnel.bufSize)).take
            (0 + (frame.take Tunnel.bufSize).length) =
              e.buffer.take 0 ++ frame.take Tunnel.bufSize := take_overwrite (Nat.zero_le _)
        rwa [Nat.zero_add, List.take_zero, List.nil_append] at hfront
      refine ⟨unwritten (tapRead e frame), ?_, fun _ => rfl⟩
      rw [framesRead_snoc, bytesSent_snoc]
      show tunnelFraming.encode (framesRead acts ++ [frame.take Tunnel.bufSize]) =
        bytesSent acts ++ [] ++ (htons (frame.take Tunnel.bufSize).length ++
          (overwrite e.buffer 0 (frame.take Tunnel.bufSize)).take (frame.take Tunnel.bufSize).length)
      rw [Framing.encode_snoc, heq, htake, List.append_nil]
      rfl
  | lengthSent nwrite hpc =>
      obtain ⟨more, heq, hmore⟩ := h
      refine ⟨e.buffer.take e.nread, ?_, fun _ => rfl⟩
      have hall : e.plength.take nwrite = e.plength := by
        rw [of_decide_eq_true hwhole, List.take_length]
      rw [framesRead_snoc, bytesSent_snoc]
      show tunnelFraming.encode (framesRead acts ++ []) =
        bytesSent acts ++ e.plength.take nwrite ++ e.buffer.take e.nread
      have hunwritten : unwritten e = e.plength ++ e.buffer.take e.nread := by simp [unwritten, hpc]
      rw [List.append_nil, heq, hmore hgone, hunwritten, hall, List.append_assoc]
  | frameSent nwrite hpc =>
      obtain ⟨more, heq, hmore⟩ := h
      refine ⟨[], ?_, fun _ => (unwritten_eq_nil (testNet_pc e)).symm⟩
      have hall : (e.buffer.take e.nread).take nwrite = e.buffer.take e.nread := by
        rw [of_decide_eq_true hwhole, List.take_length]
      rw [framesRead_snoc, bytesSent_snoc]
      show tunnelFraming.encode (framesRead acts ++ []) =
        bytesSent acts ++ (e.buffer.take e.nread).take nwrite ++ []
      have hunwritten : unwritten e = e.buffer.take e.nread := by simp [unwritten, hpc]
      rw [List.append_nil, List.append_nil, heq, hmore hgone, hunwritten, hall]

/-! ## The receiver -/

/-- The part of the frame in hand that has been read. -/
def partialFrame (e : End) : List UInt8 :=
  match e.pc with
  | .readLength => e.plength.take (2 - e.left)
  | .readFrame => e.plength ++ e.buffer.take (ntohs e.plength - e.left)
  | .writeTap => e.plength ++ e.buffer.take e.nread
  | _ => []

/-- What has been read are the frames given to the tap, and a part of the next one. -/
structure Receiving (e : End) (acts : List EndAct) : Prop where
  fits : ∀ w ∈ framesWritten acts, tunnelFraming.Fits w
  bytes : ∃ rest, bytesRead acts = tunnelFraming.encode (framesWritten acts) ++ rest ∧
    (e.gone = false → rest = partialFrame e)
  whole : e.pc = .writeTap → e.nread = ntohs e.plength

/-- The stream has ended in the middle of a frame: in its place an empty one is, or has been,
given to the tap. -/
structure Torn (e : End) (acts : List EndAct) (ws : List Frame) (h g : List UInt8) : Prop where
  fits : ∀ w ∈ ws, tunnelFraming.Fits w
  bytes : bytesRead acts = tunnelFraming.encode ws ++ (h ++ g)
  header : h.length = 2
  short : g.length < ntohs h
  status : framesWritten acts = ws ∧ (e.pc = .writeTap ∧ e.nread = 0 ∨ e.gone = true) ∨
    framesWritten acts = ws ++ [[]] ∧ e.pc ≠ .writeTap ∧ e.pc ≠ .readFrame

/-- INTERNAL: the bytes of a header are those of its value. -/
theorem htons_ntohs {plength : List UInt8} (h : plength.length = 2) :
    htons (ntohs plength) = plength := by
  obtain ⟨b, c, rfl⟩ := List.length_eq_two.mp h
  have hb := b.toNat_lt
  have hc := c.toNat_lt
  have hntohs : ntohs [b, c] = 256 * b.toNat + c.toNat := rfl
  have hhigh : UInt8.ofNat ((256 * b.toNat + c.toNat) / 256) = b := by
    have hdiv : (256 * b.toNat + c.toNat) / 256 = b.toNat := by omega
    rw [hdiv, UInt8.ofNat_toNat]
  have hlow : UInt8.ofNat (256 * b.toNat + c.toNat) = c := by
    apply UInt8.toNat_inj.mp
    rw [UInt8.toNat_ofNat']
    omega
  rw [hntohs, htons, hhigh, hlow]

theorem partialFrame_eq_nil {e : End} (h : e.pc ≠ .readLength ∧ e.pc ≠ .readFrame ∧ e.pc ≠ .writeTap) :
    partialFrame e = [] := by
  unfold partialFrame
  split
  · exact absurd ‹_› h.1
  · exact absurd ‹_› h.2.1
  · exact absurd ‹_› h.2.2
  · rfl

/-- INTERNAL: a step that neither reads from the connection nor writes to the tap. -/
theorem receiving_of_quiet {e e' : End} {act : EndAct} {acts : List EndAct} (h : Receiving e acts)
    (hgone : e.gone = false) (hin : bytesIn act = []) (hout : frameOut act = none)
    (hsofar : e'.gone = false → partialFrame e' = partialFrame e)
    (hpc' : e'.pc ≠ .writeTap) : Receiving e' (acts ++ [act]) := by
  obtain ⟨hfits, ⟨rest, hbytes, hrest⟩, -⟩ := h
  have hframes : framesWritten (acts ++ [act]) = framesWritten acts := by
    rw [framesWritten_snoc, hout, Option.toList_none, List.append_nil]
  refine ⟨by rwa [hframes], ⟨rest, ?_, fun hgone' => ?_⟩, fun hc => absurd hc hpc'⟩
  · rw [bytesRead_snoc, hin, List.append_nil, hframes, hbytes]
  · rw [hrest hgone, hsofar hgone']

/-- INTERNAL: a read adds its chunk to the part of the frame in hand. -/
theorem receiving_of_chunk {e e' : End} {chunk : List UInt8} {acts : List EndAct}
    (h : Receiving e acts) (hgone : e.gone = false)
    (hsofar : e'.gone = false → partialFrame e' = partialFrame e ++ chunk)
    (hwhole : e'.pc = .writeTap → e'.nread = ntohs e'.plength) :
    Receiving e' (acts ++ [.readNet (some chunk)]) := by
  obtain ⟨hfits, ⟨rest, hbytes, hrest⟩, -⟩ := h
  have hframes : framesWritten (acts ++ [.readNet (some chunk)]) = framesWritten acts := by
    rw [framesWritten_snoc]
    exact List.append_nil _
  refine ⟨by rwa [hframes], ⟨rest ++ chunk, ?_, fun hgone' => ?_⟩, hwhole⟩
  · rw [bytesRead_snoc, hframes, hbytes]
    exact List.append_assoc _ _ _
  · rw [hsofar hgone', hrest hgone]

/-- INTERNAL: a read of the length adds its chunk.
SOURCE: simpletun.c:117-130, 353-362 -/
theorem partialFrame_lengthRead {e : End} (hok : EndOk e) (hpc : e.pc = .readLength)
    {chunk : List UInt8} (hne : chunk ≠ []) (hlen : chunk.length ≤ e.left) :
    partialFrame (lengthRead e chunk) = partialFrame e ++ chunk ∧
      ((lengthRead e chunk).pc = .writeTap →
        (lengthRead e chunk).nread = ntohs (lengthRead e chunk).plength) := by
  obtain ⟨hpos, hle⟩ := hok.length hpc
  have hsofar : partialFrame e = e.plength.take (2 - e.left) := by simp [partialFrame, hpc]
  have htake : (overwrite e.plength (2 - e.left) chunk).take (2 - e.left + chunk.length) =
      e.plength.take (2 - e.left) ++ chunk := take_overwrite (by rw [hok.plength]; omega)
  have hall : 2 - e.left + chunk.length = 2 → overwrite e.plength (2 - e.left) chunk =
      e.plength.take (2 - e.left) ++ chunk := by
    intro htwo
    rw [← htake, htwo, List.take_of_length_le]
    rw [length_overwrite (by rw [hok.plength]; omega), hok.plength]
  rw [hsofar]
  unfold lengthRead
  rw [if_neg hne]
  dsimp only
  split
  · rename_i hleft
    have hread : 2 - (e.left - chunk.length) = 2 - e.left + chunk.length := by omega
    refine ⟨?_, by simp [hpc]⟩
    rw [← htake, ← hread]
    simp [partialFrame, hpc]
  · rename_i hleft
    have hfull := hall (by omega)
    split
    · rename_i hzero
      refine ⟨?_, fun _ => hzero.symm⟩
      show overwrite e.plength (2 - e.left) chunk ++ e.buffer.take 0 = _
      rw [hfull, List.take_zero, List.append_nil]
    · refine ⟨?_, nofun⟩
      show overwrite e.plength (2 - e.left) chunk ++ e.buffer.take
        (ntohs (overwrite e.plength (2 - e.left) chunk) -
          ntohs (overwrite e.plength (2 - e.left) chunk)) = _
      rw [hfull, Nat.sub_self, List.take_zero, List.append_nil]

/-- INTERNAL: a read of the frame adds its chunk, or overruns the buffer.
SOURCE: simpletun.c:117-130, 362 -/
theorem partialFrame_frameRead {e : End} (hok : EndOk e) (hpc : e.pc = .readFrame)
    {chunk : List UInt8} (hne : chunk ≠ []) (hlen : chunk.length ≤ e.left) :
    ((frameRead e chunk).gone = false → partialFrame (frameRead e chunk) = partialFrame e ++ chunk) ∧
      ((frameRead e chunk).pc = .writeTap →
        (frameRead e chunk).nread = ntohs (frameRead e chunk).plength) := by
  obtain ⟨hpos, hle, hoffset⟩ := hok.frame hpc
  have hsofar : partialFrame e = e.plength ++ e.buffer.take (ntohs e.plength - e.left) := by
    simp [partialFrame, hpc]
  have htake : (overwrite e.buffer (ntohs e.plength - e.left) chunk).take
      (ntohs e.plength - e.left + chunk.length) =
      e.buffer.take (ntohs e.plength - e.left) ++ chunk :=
    take_overwrite (by rw [hok.buffer]; exact hoffset)
  rw [hsofar, List.append_assoc, ← htake]
  unfold frameRead
  rw [if_neg hne]
  dsimp only
  split
  · exact ⟨by simp [End.gone], nofun⟩
  · split
    · rename_i hleft
      have hread : ntohs e.plength - (e.left - chunk.length) =
          ntohs e.plength - e.left + chunk.length := by omega
      refine ⟨fun _ => ?_, by simp [hpc]⟩
      rw [← hread]
      simp [partialFrame, hpc]
    · have hread : ntohs e.plength - e.left + chunk.length = ntohs e.plength := by omega
      refine ⟨fun _ => ?_, fun _ => rfl⟩
      rw [hread]
      rfl

/-- **The receiver.**  Each step keeps the account of what was read, unless the stream ends in the
middle of a frame.
SOURCE: simpletun.c:348-368 -/
theorem receiving_step {e e' : End} {act : EndAct} {acts : List EndAct} (hok : EndOk e)
    (hs : EndStep e act e') (h : Receiving e acts) :
    Receiving e' (acts ++ [act]) ∨
      act = .readNet (some []) ∧ ∃ ws h g, Torn e' (acts ++ [act]) ws h g := by
  have hgone := not_gone_of_endStep hs
  cases hs with
  | interrupted hpc | tapReady net hpc | lengthSent nwrite hpc =>
      refine Or.inl (receiving_of_quiet h hgone rfl rfl (fun _ => ?_) (by simp [hpc]))
      exact (partialFrame_eq_nil (by simp [hpc])).trans (partialFrame_eq_nil (by simp [hpc])).symm
  | netReady hpc =>
      refine Or.inl (receiving_of_quiet h hgone rfl rfl (fun _ => ?_) (by simp))
      rw [partialFrame_eq_nil (e := e) (by simp [hpc])]
      rfl
  | readTap frame hpc =>
      refine Or.inl (receiving_of_quiet h hgone rfl rfl (fun _ => ?_) (by simp [tapRead]))
      rw [partialFrame_eq_nil (e := e) (by simp [hpc])]
      rfl
  | frameSent nwrite hpc =>
      refine Or.inl (receiving_of_quiet h hgone rfl rfl (fun _ => ?_) ?_)
      · rw [partialFrame_eq_nil (e := e) (by simp [hpc])]
        unfold testNet
        split <;> rfl
      · unfold testNet
        split <;> nofun
  | selectFailed hpc | tapFailed hpc | lengthFailed hpc | frameFailed hpc | netFailed hpc
  | tapWriteFailed hpc | lengthEnd hpc =>
      exact Or.inl (receiving_of_quiet h hgone rfl rfl (by simp [End.gone]) (by simp))
  | lengthChunk chunk hpc hne hlen =>
      obtain ⟨hsofar, hwhole⟩ := partialFrame_lengthRead hok hpc hne hlen
      exact Or.inl (receiving_of_chunk h hgone (fun _ => hsofar) hwhole)
  | frameChunk chunk hpc hne hlen =>
      obtain ⟨hsofar, hwhole⟩ := partialFrame_frameRead hok hpc hne hlen
      exact Or.inl (receiving_of_chunk h hgone hsofar hwhole)
  | frameEnd hpc =>
      right
      obtain ⟨hfits, ⟨rest, hbytes, hrest⟩, -⟩ := h
      obtain ⟨hpos, hle, -⟩ := hok.frame hpc
      have hsofar : partialFrame e = e.plength ++ e.buffer.take (ntohs e.plength - e.left) := by
        simp [partialFrame, hpc]
      refine ⟨rfl, framesWritten acts, e.plength, e.buffer.take (ntohs e.plength - e.left),
        hfits, ?_, hok.plength, ?_, Or.inl ⟨?_, Or.inl ⟨rfl, rfl⟩⟩⟩
      · rw [bytesRead_snoc, hbytes, hrest hgone, hsofar]
        exact List.append_nil _
      · rw [List.length_take]
        omega
      · rw [framesWritten_snoc]
        exact List.append_nil _
  | tapWritten hpc =>
      left
      obtain ⟨hfits, ⟨rest, hbytes, hrest⟩, hwhole⟩ := h
      have hlen : (e.buffer.take e.nread).length = e.nread :=
        List.length_take_of_le (by rw [hok.buffer]; exact hok.nread)
      have hframes : framesWritten (acts ++ [.writeTap (e.buffer.take e.nread) true]) =
          framesWritten acts ++ [e.buffer.take e.nread] := framesWritten_snoc _ _
      have hsofar : partialFrame e = e.plength ++ e.buffer.take e.nread := by
        simp [partialFrame, hpc]
      refine ⟨?_, ⟨[], ?_, fun _ => rfl⟩, nofun⟩
      · rw [hframes]
        intro w hw
        rcases List.mem_append.mp hw with hw | hw
        · exact hfits w hw
        · rw [List.mem_singleton.mp hw]
          show (e.buffer.take e.nread).length < 65536
          rw [hlen, hwhole hpc]
          exact ntohs_lt _
      · have hheader : tunnelFraming.header (e.buffer.take e.nread).length = e.plength := by
          rw [hlen, hwhole hpc]
          exact htons_ntohs hok.plength
        rw [bytesRead_snoc, hframes, Framing.encode_snoc, hheader, hbytes, hrest hgone, hsofar]
        rfl

/-- INTERNAL: behind a torn frame nothing is read any more, and only the empty frame is written.
SOURCE: simpletun.c:353-367 -/
theorem torn_step {e e' : End} {act : EndAct} {acts : List EndAct} {ws : List Frame}
    {h g : List UInt8} (hs : EndStep e act e') (ht : Torn e acts ws h g)
    (hend : bytesIn act = []) : Torn e' (acts ++ [act]) ws h g := by
  have hgone := not_gone_of_endStep hs
  obtain ⟨hfits, hbytes, hheader, hshort, hstatus⟩ := ht
  have hpc : e.pc = .writeTap ∧ e.nread = 0 ∧ framesWritten acts = ws ∨
      e.pc ≠ .writeTap ∧ e.pc ≠ .readFrame ∧ framesWritten acts = ws ++ [[]] := by
    rcases hstatus with ⟨hframes, ⟨hpc, hzero⟩ | hgone'⟩ | ⟨hframes, hpc⟩
    · exact Or.inl ⟨hpc, hzero, hframes⟩
    · rw [hgone] at hgone'
      cases hgone'
    · exact Or.inr ⟨hpc.1, hpc.2, hframes⟩
  refine ⟨hfits, by rw [bytesRead_snoc, hend, List.append_nil, hbytes], hheader, hshort, ?_⟩
  rw [framesWritten_snoc]
  rcases hpc with ⟨hpc, hzero, hframes⟩ | ⟨hnotTap, hnotFrame, hframes⟩
  · -- The empty frame is due.
    cases hs with
    | tapWritten => exact Or.inr (by simp [frameOut, hframes, hzero])
    | tapWriteFailed => exact Or.inl (by simp [frameOut, hframes, End.gone])
    | netFailed hpc' => rw [hpc] at hpc'; rcases hpc' with hpc' | hpc' <;> cases hpc'
    | interrupted hpc' | selectFailed hpc' | tapReady net hpc' | netReady hpc' | tapFailed hpc'
    | readTap frame hpc' | lengthSent nwrite hpc' | lengthFailed hpc' | frameSent nwrite hpc'
    | frameFailed hpc' | lengthEnd hpc' | lengthChunk chunk hpc' | frameEnd hpc'
    | frameChunk chunk hpc' => rw [hpc] at hpc'; cases hpc'
  · -- It has been written, and only the end of the stream is left to be read.
    right
    cases hs with
    | lengthChunk chunk hpc hne hlen => exact absurd hend hne
    | frameChunk chunk hpc hne hlen => exact absurd hend hne
    | frameEnd hpc => exact absurd hpc hnotFrame
    | tapWritten hpc => exact absurd hpc hnotTap
    | tapWriteFailed hpc => exact absurd hpc hnotTap
    | frameSent nwrite hpc =>
        unfold testNet
        split <;> simp [hframes, frameOut]
    | interrupted hpc => simp [hframes, frameOut, hpc]
    | readTap frame hpc => simp [hframes, frameOut, tapRead]
    | _ => simp [hframes, frameOut]

/-! ## The two ends together -/

/-- The steps of one side. -/
def actsOf (side : Side) (ls : List (Side × EndAct)) : List EndAct :=
  ls.filterMap fun l => if l.1 = side then some l.2 else none

theorem actsOf_snoc_self (side : Side) (ls : List (Side × EndAct)) (act : EndAct) :
    actsOf side (ls ++ [(side, act)]) = actsOf side ls ++ [act] := by
  simp [actsOf]

theorem actsOf_snoc_of_ne {side other : Side} (h : other ≠ side) (ls : List (Side × EndAct))
    (act : EndAct) : actsOf side (ls ++ [(other, act)]) = actsOf side ls := by
  simp [actsOf, h]

/-- INTERNAL: what a step puts on its own stream and takes off the other; an end of the stream
is seen when nothing is left and the sender has gone. -/
theorem streamAfter_spec {t : TunnelState} {side : Side} {act : EndAct}
    {stream : Side → List UInt8} (h : streamAfter t side act = some stream) :
    stream side = t.stream side ++ bytesOut act ∧
      t.stream side.peer = bytesIn act ++ stream side.peer ∧
      (act = .readNet (some []) → t.stream side.peer = [] ∧ (t.ends side.peer).gone = true) := by
  have hpeer := side.peer_ne
  unfold streamAfter at h
  split at h
  · rename_i data nwrite
    split at h
    · cases h
      refine ⟨Function.update_self .., ?_, nofun⟩
      rw [Function.update_of_ne hpeer]
      rfl
    · cases h
  · split at h
    · rename_i hend
      cases h
      exact ⟨(List.append_nil _).symm, rfl, fun _ => hend⟩
    · cases h
  · rename_i chunk hne
    split at h
    · rename_i hchunk
      cases h
      obtain ⟨rest, hrest⟩ := hchunk
      refine ⟨?_, ?_, fun hc => absurd (by cases hc; rfl) hne⟩
      · rw [Function.update_of_ne hpeer.symm]
        exact (List.append_nil _).symm
      · rw [Function.update_self, ← hrest, List.drop_left]
        rfl
    · cases h
  · rename_i hwrite hend hread
    cases h
    refine ⟨?_, ?_, fun hc => absurd hc hend⟩
    · cases act with
      | writeNet data nwrite =>
          cases nwrite with
          | none => exact (List.append_nil _).symm
          | some n => exact absurd rfl (hwrite data n)
      | _ => exact (List.append_nil _).symm
    · cases act with
      | readNet chunk =>
          cases chunk with
          | none => rfl
          | some chunk => exact absurd rfl (hread chunk)
      | _ => rfl

/-- The account of one direction: what its sender has sent and its receiver has read, joined by
the stream. -/
structure Direction (side : Side) (ls : List (Side × EndAct)) (t : TunnelState) : Prop where
  pipe : Pipe (bytesSent (actsOf side ls)) (bytesRead (actsOf side.peer ls)) (t.stream side)
  sending : Sending (t.ends side) (actsOf side ls)
  receiving : Receiving (t.ends side.peer) (actsOf side.peer ls) ∨
    t.stream side = [] ∧ (t.ends side).gone = true ∧
      ∃ ws h g, Torn (t.ends side.peer) (actsOf side.peer ls) ws h g

/-- INTERNAL: **one step of the tunnel** keeps the account of each direction. -/
theorem direction_step {side actor : Side} {ls : List (Side × EndAct)} {t t' : TunnelState}
    {act : EndAct} (hok : EndOk (t.ends side.peer)) (h : Direction side ls t)
    (hs : tunnelStep t (actor, act) = some t') (hwhole : wholeWrite act = true) :
    Direction side (ls ++ [(actor, act)]) t' := by
  obtain ⟨hpipe, hsending, hreceiving⟩ := h
  obtain ⟨he, hstream, hsame⟩ := tunnelStep_cases hs
  obtain ⟨hout, hin, hend⟩ := streamAfter_spec hstream
  have hpeer := side.peer_ne
  rcases side.eq_or_peer actor with rfl | rfl
  · -- the sender
    refine ⟨?_, ?_, ?_⟩
    · rw [actsOf_snoc_self, actsOf_snoc_of_ne hpeer.symm, bytesSent_snoc, hout]
      exact hpipe.write _
    · rw [actsOf_snoc_self]
      exact sending_step he hwhole hsending
    · rw [actsOf_snoc_of_ne hpeer.symm, hsame]
      rcases hreceiving with hreceiving | ⟨-, hgone, -⟩
      · exact Or.inl hreceiving
      · rw [not_gone_of_endStep he] at hgone
        cases hgone
  · -- the receiver
    rw [Side.peer_peer] at hin hend hsame
    refine ⟨?_, ?_, ?_⟩
    · rw [actsOf_snoc_self, actsOf_snoc_of_ne hpeer, bytesRead_snoc]
      exact hpipe.take hin
    · rw [actsOf_snoc_of_ne hpeer, hsame]
      exact hsending
    · rw [actsOf_snoc_self, hsame]
      rcases hreceiving with hreceiving | ⟨hempty, hgone, ws, h, g, htorn⟩
      · rcases receiving_step hok he hreceiving with hreceiving' | ⟨rfl, htorn⟩
        · exact Or.inl hreceiving'
        · obtain ⟨hempty, hgone⟩ := hend rfl
          rw [hempty] at hin
          exact Or.inr ⟨(List.append_eq_nil_iff.mp hin.symm).2, hgone, htorn⟩
      · rw [hempty] at hin
        obtain ⟨hin', hempty'⟩ := List.append_eq_nil_iff.mp hin.symm
        exact Or.inr ⟨hempty', hgone, ws, h, g, torn_step he htorn hin'⟩

/-- INTERNAL: a frame from the tap fits in the buffer. -/
theorem length_of_mem_framesRead {acts : List EndAct} {f : Frame} (hf : f ∈ framesRead acts) :
    f.length ≤ Tunnel.bufSize := by
  obtain ⟨act, -, hact⟩ := List.mem_filterMap.mp hf
  unfold frameIn at hact
  split at hact
  · cases hact
    exact List.length_take_le _ _
  · cases hact

theorem fits_of_mem_framesRead {acts : List EndAct} {f : Frame} (hf : f ∈ framesRead acts) :
    tunnelFraming.Fits f := by
  have hle := length_of_mem_framesRead hf
  have hsize : Tunnel.bufSize < 65536 := by decide
  show f.length < 65536
  omega

/-- INTERNAL: what has been read is the front of what is to be sent. -/
theorem Direction.read_front {side : Side} {ls : List (Side × EndAct)} {t : TunnelState}
    (h : Direction side ls t) : bytesRead (actsOf side.peer ls) <+:
      tunnelFraming.encode (framesRead (actsOf side ls)) := by
  obtain ⟨more, heq, -⟩ := h.sending
  rw [heq]
  exact h.pipe.read_front.trans (List.prefix_append _ _)

/-- INTERNAL: only a read that goes on behind the end of the buffer overruns it.
SOURCE: simpletun.c:362 -/
theorem overrun_cases {e e' : End} {act : EndAct} (hs : EndStep e act e')
    (hpc' : e'.pc = .overrun) : ∃ chunk, act = .readNet (some chunk) ∧ e.pc = .readFrame ∧
      chunk.length ≤ e.left ∧ Tunnel.bufSize < ntohs e.plength - e.left + chunk.length := by
  cases hs with
  | frameChunk chunk hpc hne hlen =>
      refine ⟨chunk, rfl, hpc, hlen, ?_⟩
      by_contra hfits
      simp only [frameRead, if_neg hne, if_neg hfits] at hpc'
      split at hpc'
      · rw [hpc] at hpc'
        cases hpc'
      · cases hpc'
  | lengthChunk chunk hpc hne hlen =>
      simp only [lengthRead, if_neg hne] at hpc'
      split at hpc'
      · rw [hpc] at hpc'
        cases hpc'
      · split at hpc' <;> cases hpc'
  | frameSent nwrite hpc =>
      unfold testNet at hpc'
      split at hpc' <;> cases hpc'
  | interrupted hpc =>
      rw [hpc] at hpc'
      cases hpc'
  | _ => cases hpc'

/-- INTERNAL: a length that came through the tunnel is that of a frame from a tap, and no read
goes beyond it. -/
theorem inBounds_step {actor : Side} {ls : List (Side × EndAct)} {t t' : TunnelState}
    {act : EndAct} (hok : EndOk (t.ends actor)) (h : Direction actor.peer ls t)
    (h' : Direction actor.peer (ls ++ [(actor, act)]) t')
    (hs : tunnelStep t (actor, act) = some t') : (t'.ends actor).pc ≠ .overrun := by
  intro hover
  obtain ⟨he, hstream, -⟩ := tunnelStep_cases hs
  obtain ⟨chunk, rfl, hpc, hlen, hbeyond⟩ := overrun_cases he hover
  obtain ⟨hpos, hle, -⟩ := hok.frame hpc
  have hreceiving := h.receiving
  have hread := h'.read_front
  rw [Side.peer_peer] at hreceiving hread
  rcases hreceiving with hreceiving | ⟨-, -, ws, g, g', htorn⟩
  · obtain ⟨hfits, ⟨rest, hbytes, hrest⟩, -⟩ := hreceiving
    have hsofar : partialFrame (t.ends actor) = (t.ends actor).plength ++
        (t.ends actor).buffer.take (ntohs (t.ends actor).plength - (t.ends actor).left) := by
      simp [partialFrame, hpc]
    rw [actsOf_snoc_self, actsOf_snoc_of_ne actor.peer_ne.symm, bytesRead_snoc, hbytes,
      hrest (not_gone_of_endStep he), hsofar, List.append_assoc, List.append_assoc] at hread
    obtain ⟨fs, hfs, hnext⟩ := Framing.encode_split hfits (fun f hf => fits_of_mem_framesRead hf) hread
    obtain ⟨f, fs', rfl, hheader, -⟩ := Framing.next_of_prefix hok.plength hnext
    have hmem : f ∈ framesRead (actsOf actor.peer ls) := by
      rw [hfs]
      exact List.mem_append_right _ List.mem_cons_self
    have hvalue : ntohs (t.ends actor).plength = f.length := by
      rw [hheader]
      exact tunnelFraming.value_header f.length (fits_of_mem_framesRead hmem)
    have hsize := length_of_mem_framesRead hmem
    omega
  · rcases htorn.status with ⟨-, ⟨hpc', -⟩ | hgone⟩ | ⟨-, -, hpc'⟩
    · rw [hpc] at hpc'
      cases hpc'
    · rw [not_gone_of_endStep he] at hgone
      cases hgone
    · exact hpc' hpc

/-! ## Runs -/

/-- What holds of a run and the state it ends in. -/
structure Tunnelled (ls : List (Side × EndAct)) (t : TunnelState) : Prop where
  ok : ∀ side, EndOk (t.ends side)
  direction : ∀ side, Direction side ls t
  inBounds : ∀ side, (t.ends side).pc ≠ .overrun

/-- INTERNAL: the start. -/
theorem tunnelled_init : Tunnelled [] tunnel.init where
  ok _ := endOk_init
  direction _ := ⟨⟨rfl⟩, ⟨[], rfl, fun _ => rfl⟩, Or.inl ⟨nofun, ⟨[], rfl, fun _ => rfl⟩, nofun⟩⟩
  inBounds _ := nofun

/-- **The account of both directions holds along every run** without a short write. -/
theorem tunnelled_run {ls : List (Side × EndAct)} {t : TunnelState} (hrun : tunnel.Run ls t)
    (hwhole : ∀ l ∈ ls, wholeWrite l.2 = true) : Tunnelled ls t := by
  refine tunnel.run_induction (fun _ l => wholeWrite l.2 = true) Tunnelled tunnelled_init ?_ ls t hrun
    fun pre l post s heq _ => hwhole l (by rw [heq]; exact List.mem_append_right _ List.mem_cons_self)
  rintro ls t ⟨actor, act⟩ t' - ⟨hok, hdirection, hin⟩ hlabel hs
  have hdirection' : ∀ side, Direction side (ls ++ [(actor, act)]) t' :=
    fun side => direction_step (hok side.peer) (hdirection side) hs hlabel
  obtain ⟨he, -, hsame⟩ := tunnelStep_cases hs
  refine ⟨fun side => ?_, hdirection', fun side => ?_⟩
  · rcases actor.eq_or_peer side with rfl | rfl
    · exact endOk_step (hok side) he
    · rw [hsame]
      exact hok actor.peer
  · rcases actor.eq_or_peer side with rfl | rfl
    · exact inBounds_step (hok side) (hdirection side.peer) (hdirection' side.peer) hs
    · rw [hsame]
      exact hin actor.peer

/-- **The tunnel delivers.**  In every run in which no write to the connection is short, however
the reads cut the stream into pieces and whichever process goes away when: the frames one side
has given to its tap are, in order and without one missing or doubled, the first of those the
other has taken from its own, or these and then one empty frame in the place of a frame that the
sender, now gone, did not finish.  When both ends wait in `select` and nothing is in the stream,
all frames have come through.  And no end ever reads a frame beyond its buffer.
SOURCE: simpletun.c:117-130, 314-369 -/
theorem tunnel_delivers (ls : List (Side × EndAct)) (t : TunnelState) (hrun : tunnel.Run ls t)
    (hwhole : ∀ l ∈ ls, wholeWrite l.2 = true) (side : Side) :
    (framesWritten (actsOf side.peer ls) <+: framesRead (actsOf side ls) ∨
      (t.ends side).gone = true ∧ ∃ front, framesWritten (actsOf side.peer ls) = front ++ [[]] ∧
        front <+: framesRead (actsOf side ls) ∧
        front.length < (framesRead (actsOf side ls)).length) ∧
    ((t.ends side).pc = .select → (t.ends side.peer).pc = .select → t.stream side = [] →
      framesWritten (actsOf side.peer ls) = framesRead (actsOf side ls)) ∧
    (t.ends side).pc ≠ .overrun := by
  obtain ⟨hok, hdirection, hin⟩ := tunnelled_run hrun hwhole
  have hfits : ∀ f ∈ framesRead (actsOf side ls), tunnelFraming.Fits f :=
    fun f hf => fits_of_mem_framesRead hf
  obtain ⟨hpipe, ⟨more, hsent, hmore⟩, hreceiving⟩ := hdirection side
  have hprefix := (hdirection side).read_front
  refine ⟨?_, ?_, hin side⟩
  · rcases hreceiving with hreceiving | ⟨-, hgone, ws, h, g, htorn⟩
    · obtain ⟨rest, hbytes, -⟩ := hreceiving.bytes
      rw [hbytes] at hprefix
      obtain ⟨fs, hfs, -⟩ := Framing.encode_split hreceiving.fits hfits hprefix
      exact Or.inl ⟨fs, hfs.symm⟩
    · rw [htorn.bytes] at hprefix
      obtain ⟨fs, hfs, hnext⟩ := Framing.encode_split htorn.fits hfits hprefix
      obtain ⟨f, fs', rfl, -, -⟩ := Framing.next_of_prefix htorn.header hnext
      rcases htorn.status with ⟨hframes, -⟩ | ⟨hframes, -⟩
      · left
        rw [hframes]
        exact ⟨f :: fs', hfs.symm⟩
      · refine Or.inr ⟨hgone, ws, hframes, ⟨f :: fs', hfs.symm⟩, ?_⟩
        rw [hfs, List.length_append, List.length_cons]
        omega
  · intro hpc hpc' hempty
    have hgone : (t.ends side).gone = false := by simp [End.gone, hpc]
    have hgone' : (t.ends side.peer).gone = false := by simp [End.gone, hpc']
    rcases hreceiving with ⟨hfitsw, ⟨rest, hbytes, hrest⟩, -⟩ | ⟨-, hgone₀, -⟩
    · have hnothing : more = [] := by rw [hmore hgone, unwritten_eq_nil (by simp [hpc])]
      have hnone : rest = [] := by rw [hrest hgone', partialFrame_eq_nil (by simp [hpc'])]
      have hall := hpipe.eq
      rw [hempty, List.append_nil, hbytes, hnone, List.append_nil] at hall
      rw [hnothing, List.append_nil, hall] at hsent
      exact (Framing.encode_inj hfits hfitsw hsent).symm
    · rw [hgone] at hgone₀
      cases hgone₀

/-- A frame of three bytes through the tunnel, read off the stream in three pieces. -/
def cutFrame : List (Side × EndAct) :=
  [(.client, .select true false), (.client, .readTap (some [7, 8, 9])),
    (.client, .writeNet [0, 3] (some 2)), (.client, .writeNet [7, 8, 9] (some 3)),
    (.server, .select false true), (.server, .readNet (some [0])),
    (.server, .readNet (some [3])), (.server, .readNet (some [7, 8])),
    (.server, .readNet (some [9])), (.server, .writeTap [7, 8, 9] true)]

/-- The frame in pieces comes out whole. -/
theorem tunnel_delivers_cutFrame : ∃ t, tunnel.Run cutFrame t ∧
    framesWritten (actsOf .server cutFrame) = [[7, 8, 9]] := by
  have hsome : ((tunnel.exec tunnel.init cutFrame).map fun t =>
      ((t.ends .client).pc, (t.ends .server).pc, t.stream .client)) =
        some (.select, .select, []) := by decide +kernel
  obtain ⟨t, ht, hpcs⟩ := Option.map_eq_some_iff.mp hsome
  simp only [Prod.mk.injEq] at hpcs
  have hwhole : ∀ l ∈ cutFrame, wholeWrite l.2 = true := by decide
  obtain ⟨-, hall, -⟩ := tunnel_delivers cutFrame t ht hwhole .client
  exact ⟨t, ht, hall hpcs.1 hpcs.2.1 hpcs.2.2⟩

end VtRouter.Analysis
