import Mathlib.Data.List.Infix
import VtRouter.Library.Transition

/-!
# Frames in a byte stream

A stream has no boundaries, so each frame is sent behind a header of one fixed width that tells
its length (`Framing`).  What a reader has taken off a stream is then some whole frames and the
beginning of the next, and if it is also a prefix of what a writer puts on it, the whole frames
are the first ones the writer sent (`encode_split`) and the beginning is that of the next
(`next_of_prefix`).

`Pipe` is the bookkeeping of one stream: what was written is what was read and then what is still
in it.
-/

set_option autoImplicit false

namespace Library

universe u

/-- How the lengths below a bound are written. -/
structure Framing (β : Type u) where
  width : ℕ
  bound : ℕ
  header : ℕ → List β
  value : List β → ℕ
  width_pos : 0 < width
  length_header : ∀ n, (header n).length = width
  value_header : ∀ n, n < bound → value (header n) = n

namespace Framing

variable {β : Type u} (F : Framing β)

/-- A frame whose length can be written. -/
def Fits (f : List β) : Prop := f.length < F.bound

/-- The frames, each behind its header. -/
def encode (fs : List (List β)) : List β := fs.flatMap fun f => F.header f.length ++ f

@[simp] theorem encode_nil : F.encode [] = [] := rfl

theorem encode_cons (f : List β) (fs : List (List β)) :
    F.encode (f :: fs) = F.header f.length ++ (f ++ F.encode fs) := by
  simp [encode]

theorem encode_snoc (fs : List (List β)) (f : List β) :
    F.encode (fs ++ [f]) = F.encode fs ++ (F.header f.length ++ f) := by
  simp [encode]

variable {F}

/-- INTERNAL: a stream that begins with a header has a frame of that length next. -/
theorem next_of_prefix {h rest : List β} {fs : List (List β)} (hlen : h.length = F.width)
    (hp : h ++ rest <+: F.encode fs) :
    ∃ f fs', fs = f :: fs' ∧ h = F.header f.length ∧ rest <+: f ++ F.encode fs' := by
  cases fs with
  | nil =>
      have hshort := hp.length_le
      have hpos := F.width_pos
      rw [encode_nil, List.length_append, List.length_nil] at hshort
      omega
  | cons f fs' =>
      rw [encode_cons] at hp
      have hlen' : h.length = (F.header f.length).length := by rw [hlen, F.length_header]
      obtain ⟨tail, htail⟩ := hp
      rw [List.append_assoc] at htail
      obtain ⟨hh, hrest⟩ := List.append_inj htail hlen'
      exact ⟨f, fs', rfl, hh, tail, hrest⟩

/-- **Frames are cut where they were joined:** whole frames at the front of a stream are the
first ones in it. -/
theorem encode_split {ws fs : List (List β)} {rest : List β} (hws : ∀ w ∈ ws, F.Fits w)
    (hfs : ∀ f ∈ fs, F.Fits f) (hp : F.encode ws ++ rest <+: F.encode fs) :
    ∃ fs', fs = ws ++ fs' ∧ rest <+: F.encode fs' := by
  induction ws generalizing fs with
  | nil => exact ⟨fs, rfl, hp⟩
  | cons w ws ih =>
      rw [encode_cons, List.append_assoc, List.append_assoc] at hp
      obtain ⟨f, fs', rfl, hheader, hp'⟩ := next_of_prefix (F.length_header _) hp
      have hlength : w.length = f.length := by
        rw [← F.value_header w.length (hws w List.mem_cons_self), hheader,
          F.value_header f.length (hfs f List.mem_cons_self)]
      obtain ⟨tail, htail⟩ := hp'
      rw [List.append_assoc] at htail
      obtain ⟨rfl, hrest⟩ := List.append_inj htail hlength
      obtain ⟨fs'', rfl, hrest'⟩ := ih (fun v hv => hws v (List.mem_cons_of_mem _ hv))
        (fun v hv => hfs v (List.mem_cons_of_mem _ hv)) ⟨tail, hrest⟩
      exact ⟨fs'', rfl, hrest'⟩

/-- **A stream determines its frames.** -/
theorem encode_inj {ws fs : List (List β)} (hws : ∀ w ∈ ws, F.Fits w) (hfs : ∀ f ∈ fs, F.Fits f)
    (h : F.encode ws = F.encode fs) : ws = fs := by
  have hp : F.encode ws ++ [] <+: F.encode fs := by rw [List.append_nil, h]
  obtain ⟨fs', rfl, -⟩ := encode_split hws hfs hp
  cases fs' with
  | nil => rw [List.append_nil]
  | cons f fs' =>
      have hlen := congrArg List.length h
      have hpos := F.width_pos
      simp only [encode, List.flatMap_append, List.flatMap_cons, List.length_append,
        F.length_header] at hlen
      omega

end Framing

/-! ## Streams -/

/-- What was written into a stream, what was read from it, and what is in it. -/
structure Pipe {β : Type u} (written read stream : List β) : Prop where
  eq : written = read ++ stream

namespace Pipe

variable {β : Type u} {written read stream : List β}

theorem write (h : Pipe written read stream) (data : List β) :
    Pipe (written ++ data) read (stream ++ data) :=
  ⟨by rw [h.eq, List.append_assoc]⟩

theorem take (h : Pipe written read stream) {chunk rest : List β} (hs : stream = chunk ++ rest) :
    Pipe written (read ++ chunk) rest :=
  ⟨by rw [h.eq, hs, List.append_assoc]⟩

theorem read_front (h : Pipe written read stream) : read <+: written := ⟨stream, h.eq.symm⟩

end Pipe

end Library
