import LunaEdge.BufReader
import LunaEdge.ClientHello

/-!
# Peeking at the server name

A TLS connection is looked at before it is served: `PeekServerName` peeks
at the five bytes of the record header, then at the whole record, and
parses it, all before a deadline two seconds after the call. Whatever it
finds, no byte is taken from the stream.

The record is peeked at through a buffer of 4096 bytes. A record that fits
and comes in time is parsed however it arrives; a larger one is refused,
although a TLS record may hold four times as much (`peekServerName_iff`).

The code's own running time is left out: only waiting takes time.
-/

namespace LunaEdge

open List

namespace PeekConn

open BufReader ClientHello

/-! ## The model -/

/-- The buffer of `bufio.NewReader`. -/
def defaultBufSize : Nat := 4096

/-- `2 * time.Second`; all times are in nanoseconds. -/
def peekTimeout : Nat := 2000000000

def newPeekConn (segments : List (Segment UInt8)) (h : ∀ s ∈ segments, s.data ≠ []) :
    Reader UInt8 where
  capacity := defaultBufSize
  buffered := []
  segments := segments
  fits := Nat.zero_le defaultBufSize
  segments_ne := h

inductive PeekNameError where
  /-- the error of `SetReadDeadline` -/
  | deadline
  | peek (err : PeekError)
  /-- `not a tls handshake` -/
  | notHandshake
  | hello (err : HelloError)
deriving Repr, DecidableEq

def parseFrame : Except PeekError (List UInt8) → Except PeekNameError (List UInt8)
  | .error err => .error (.peek err)
  | .ok frame => (parseTLSClientHelloServerName frame).mapError .hello

/-- The `recordLen` of a header that was peeked at. -/
def recordLength : Except PeekError (List UInt8) → Except PeekNameError Nat
  | .error err => .error (.peek err)
  | .ok header =>
    if header.length < 5 ∨ header[0]? ≠ some 22 then .error .notHandshake
    else (ClientHello.uint16 header 3).mapError .hello

def peekRecord (conn : Reader UInt8) :
    Except PeekNameError Nat → Reader UInt8 × Except PeekNameError (List UInt8)
  | .error err => (conn, .error err)
  | .ok recordLen =>
    let (conn, frame) := conn.peek (5 + recordLen)
    (conn, parseFrame frame)

/-- The part of `PeekServerName` under the deadline. -/
def peekName (conn : Reader UInt8) : Reader UInt8 × Except PeekNameError (List UInt8) :=
  peekRecord (conn.peek 5).1 (recordLength (conn.peek 5).2)

def setReadDeadline (conn : Reader UInt8) (deadline : Option Nat) : Reader UInt8 :=
  { conn with deadline := deadline }

/-- A call at the time `now`; `refused` if the connection takes no deadline,
as a closed one does not. -/
def peekServerName (now : Nat) (refused : Bool) (conn : Reader UInt8) :
    Reader UInt8 × Except PeekNameError (List UInt8) :=
  if refused then (conn, .error .deadline)
  else
    let (conn, name) := peekName (setReadDeadline conn (some (now + peekTimeout)))
    (setReadDeadline conn none, name)

/-! ## The two peeks -/

section Peeks

variable {conn conn' : Reader UInt8}

theorem kept_peekName (conn : Reader UInt8) : Reader.Kept conn (peekName conn).1 := by
  rw [peekName]
  refine (Reader.kept_peek conn 5).trans ?_
  cases recordLength (conn.peek 5).2 with
  | error err => exact ⟨rfl, rfl, rfl⟩
  | ok recordLen => exact Reader.kept_peek _ _

variable (herr : conn.err = none) (hcapacity : 5 ≤ conn.capacity)

include herr hcapacity

/-- The second peek shows what it would have shown without the first. -/
theorem peekName_snd :
    (peekName conn).2
      = (recordLength (conn.peek 5).2).bind fun n => parseFrame (conn.peek (5 + n)).2 := by
  have hkept := Reader.kept_peek conn 5
  rw [peekName]
  cases recordLength (conn.peek 5).2 with
  | error err => rfl
  | ok recordLen =>
    have hsecond : ((conn.peek 5).1.peek (5 + recordLen)).2 = (conn.peek (5 + recordLen)).2 := by
      rw [Reader.peek_eq (Reader.err_peek herr hcapacity), Reader.peek_eq herr, hkept.capacity,
        hkept.available, hkept.late]
    exact congrArg parseFrame hsecond

theorem err_peekName (hfull : (peekName conn).2 ≠ .error (.peek .bufferFull)) :
    (peekName conn).1.err = none := by
  have herr' := Reader.err_peek herr hcapacity
  rw [peekName] at hfull ⊢
  generalize recordLength (conn.peek 5).2 = recordLen at hfull ⊢
  cases recordLen with
  | error err => exact herr'
  | ok recordLen =>
    refine Reader.err_peek herr' (not_lt.mp fun hlarge => hfull ?_)
    have hresult : ((conn.peek 5).1.peek (5 + recordLen)).2 = .error .bufferFull := by
      rw [Reader.peek_eq herr', if_pos hlarge]
    exact congrArg parseFrame hresult

end Peeks

/-! ## Nothing is lost -/

variable {segments : List (Segment UInt8)} {now : Nat} (h : ∀ s ∈ segments, s.data ≠ [])

/-- The new connection under the deadline of a call at the time `now`. -/
def underDeadline (now : Nat) (segments : List (Segment UInt8))
    (h : ∀ s ∈ segments, s.data ≠ []) : Reader UInt8 :=
  setReadDeadline (newPeekConn segments h) (some (now + peekTimeout))

theorem peekServerName_snd :
    (peekServerName now false (newPeekConn segments h)).2
      = (peekName (underDeadline now segments h)).2 := rfl

theorem capacity_underDeadline : (underDeadline now segments h).capacity = defaultBufSize := rfl

theorem header_fits : 5 ≤ (underDeadline now segments h).capacity := by
  rw [capacity_underDeadline]
  decide

theorem peek_underDeadline (n : Nat) :
    ((underDeadline now segments h).peek n).2
      = if defaultBufSize < n then .error .bufferFull
        else if (timely (some (now + peekTimeout)) segments).length < n then
          .error (.connection (ending (overdue (some (now + peekTimeout)) segments)))
        else .ok ((timely (some (now + peekTimeout)) segments).take n) :=
  Reader.peek_eq rfl n

/-- All of `bytes` can be read, in order and without an error in between, by
reads of any sizes. -/
def Readable (conn : Reader UInt8) (bytes : List UInt8) : Prop :=
  ∀ sizes : List Nat, (∀ n ∈ sizes, 0 < n) → bytes.length ≤ sizes.length →
    (conn.reads sizes).1.flatten = bytes

theorem readable_of_ready {conn : Reader UInt8} (h : conn.Ready) : Readable conn conn.pending :=
  fun _ => Reader.reads_eq_pending h

theorem readable_peekServerName (refused : Bool)
    (hfull : (peekServerName now refused (newPeekConn segments h)).2
      ≠ .error (.peek .bufferFull)) :
    Readable (peekServerName now refused (newPeekConn segments h)).1 (contents segments) := by
  cases refused with
  | true => exact readable_of_ready ⟨Nat.succ_pos _, rfl, rfl⟩
  | false =>
    have hkept := kept_peekName (underDeadline now segments h)
    have herr := err_peekName rfl (header_fits h) hfull
    have hready : (peekServerName now false (newPeekConn segments h)).1.Ready := by
      refine ⟨?_, rfl, herr⟩
      refine Nat.lt_of_lt_of_eq ?_ hkept.capacity.symm
      exact Nat.lt_of_lt_of_le (by decide) (header_fits h)
    have hpending : (peekServerName now false (newPeekConn segments h)).1.pending
        = contents segments := hkept.pending
    exact hpending ▸ readable_of_ready hready

/-! ## What is found -/

theorem recordLength_framed {hello : Hello} {payload : Nat} {rest : List UInt8}
    (hpayload : payload < UInt16.size) :
    recordLength (.ok ((hello.framed payload rest).take 5)) = .ok payload := by
  have hat : Bytes.At (22 :: (Bytes.uint16 hello.recordVersion.toNat ++ Bytes.uint16 payload)) 3
      (Bytes.uint16 payload ++ []) :=
    ⟨22 :: Bytes.uint16 hello.recordVersion.toNat, by simp, rfl⟩
  have htake : (hello.framed payload rest).take 5
      = 22 :: (Bytes.uint16 hello.recordVersion.toNat ++ Bytes.uint16 payload) := rfl
  rw [htake, recordLength, if_neg, uint16_of_at hat hpayload]
  · rfl
  · rw [not_or, not_not]
    exact ⟨by simp, rfl⟩

theorem length_framed (hello : Hello) (payload : Nat) (rest : List UInt8) :
    (hello.framed payload rest).length = 5 + (hello.handshake.length + rest.length) := by
  rw [Hello.framed]
  simp only [length_cons, length_append, Bytes.length_uint16]
  omega

/-- On a connection that begins with a framed hello the record of this length
is peeked at, if its header comes in time. -/
theorem peekName_framed {hello : Hello} {payload : Nat} {rest : List UInt8}
    (hpayload : payload < UInt16.size)
    (hstream : contents segments = hello.framed payload rest)
    (hheader : 5 ≤ (timely (some (now + peekTimeout)) segments).length) :
    (peekName (underDeadline now segments h)).2
      = parseFrame ((underDeadline now segments h).peek (5 + payload)).2 := by
  have htake : (timely (some (now + peekTimeout)) segments).take 5
      = (hello.framed payload rest).take 5 := by
    rw [← hstream, contents_eq (some (now + peekTimeout)), take_append_of_le_length hheader]
  have hpeek : ((underDeadline now segments h).peek 5).2
      = .ok ((hello.framed payload rest).take 5) := by
    rw [peek_underDeadline, if_neg (by decide), if_neg (not_lt.mpr hheader), htake]
  rw [peekName_snd rfl (header_fits h), hpeek, recordLength_framed hpayload]
  rfl

/-- A record of at most 2¹⁴ bytes that begins with a hello, in front of any
further bytes and in any segmentation: the name is found and everything
stays readable exactly if a deadline can be set, the record fits the buffer
and all of it comes in time. -/
theorem peekServerName_iff (hello : Hello) {ext : Extension} {names : List NameEntry}
    {entry : NameEntry} (honly : hello.extensions.filter (fun e => e.extType = 0) = [ext])
    (hbody : ext.body = serverNameList names)
    (hfirst : names.find? (fun e => e.nameType = 0) = some entry) {more after : List UInt8}
    (hpayload : (hello.handshake ++ more).length ≤ 16384) {segments : List (Segment UInt8)}
    (hne : ∀ s ∈ segments, s.data ≠ [])
    (hstream : contents segments = hello.framed (hello.handshake ++ more).length (more ++ after))
    (now : Nat) (refused : Bool) :
    (peekServerName now refused (newPeekConn segments hne)).2 = .ok entry.name
        ∧ Readable (peekServerName now refused (newPeekConn segments hne)).1 (contents segments)
      ↔ refused = false ∧ 5 + (hello.handshake ++ more).length ≤ defaultBufSize
        ∧ 5 + (hello.handshake ++ more).length
          ≤ (timely (some (now + peekTimeout)) segments).length := by
  have hsize : 16384 < UInt16.size := by decide
  cases refused with
  | true => simp [peekServerName]
  | false =>
    constructor
    · rintro ⟨hname, -⟩
      rw [peekServerName_snd] at hname
      by_cases hheader : 5 ≤ (timely (some (now + peekTimeout)) segments).length
      · rw [peekName_framed hne (by omega) hstream hheader, peek_underDeadline] at hname
        split_ifs at hname with hfull hshort
        · cases hname
        · cases hname
        · exact ⟨rfl, not_lt.mp hfull, not_lt.mp hshort⟩
      · rw [peekName_snd rfl (header_fits hne), peek_underDeadline,
          if_neg (by decide), if_pos (not_le.mp hheader)] at hname
        cases hname
    · rintro ⟨-, hbuffer, htime⟩
      -- what is peeked at is the record alone
      have hframe : (timely (some (now + peekTimeout)) segments).take
            (5 + (hello.handshake ++ more).length)
          = hello.framed (hello.handshake ++ more).length more := by
        have hsplit : contents segments
            = hello.framed (hello.handshake ++ more).length more ++ after := by
          rw [hstream]
          simp only [Hello.framed, cons_append, append_assoc]
        rw [← take_append_of_le_length htime, ← contents_eq, hsplit]
        refine take_left' ?_
        rw [length_framed, length_append]
      have hname : (peekServerName now false (newPeekConn segments hne)).2 = .ok entry.name := by
        rw [peekServerName_snd, peekName_framed hne (by omega) hstream (by omega),
          peek_underDeadline, if_neg (not_lt.mpr hbuffer), if_neg (not_lt.mpr htime), hframe,
          parseFrame, parse_framed honly hbody hfirst]
        rfl
      refine ⟨hname, readable_peekServerName hne false ?_⟩
      rw [hname]
      intro h
      cases h

theorem peekServerName_large (hello : Hello)
    (hne : ∀ s ∈ [Segment.mk 0 hello.record], s.data ≠ [])
    (hsize : hello.handshake.length < UInt16.size)
    (hlarge : defaultBufSize < 5 + hello.handshake.length) :
    (peekServerName 0 false (newPeekConn [⟨0, hello.record⟩] hne)).2
      = .error (.peek .bufferFull) := by
  have hcontents : contents [Segment.mk 0 hello.record] = hello.record := append_nil _
  have hheader : 5 ≤ (timely (some (0 + peekTimeout)) [Segment.mk 0 hello.record]).length := by
    have htimely : timely (some (0 + peekTimeout)) [Segment.mk 0 hello.record] = hello.record :=
      append_nil _
    rw [htimely, Hello.record, length_framed]
    exact Nat.le_add_right _ _
  rw [peekServerName_snd, peekName_framed hne hsize hcontents hheader, peek_underDeadline,
    if_pos hlarge, parseFrame]

def exampleSegments : List (Segment UInt8) :=
  [⟨0, exampleHello.record.take 7⟩, ⟨1000000000, exampleHello.record.drop 7⟩]

theorem exampleSegments_ne : ∀ s ∈ exampleSegments, s.data ≠ [] := by decide +kernel

theorem peekServerName_iff_example :
    (peekServerName 0 false (newPeekConn exampleSegments exampleSegments_ne)).2
      = .ok [97, 46, 98] := by
  have honly : exampleHello.extensions.filter (fun e => e.extType = 0)
      = [⟨0, serverNameList exampleNames, exampleNames_fits⟩] := rfl
  have hfirst : exampleNames.find? (fun e => e.nameType = 0)
      = some ⟨0, [97, 46, 98], exampleName_fits⟩ := rfl
  have hpayload : (exampleHello.handshake ++ []).length ≤ 16384 := by decide +kernel
  have hstream : contents exampleSegments
      = exampleHello.framed (exampleHello.handshake ++ []).length ([] ++ []) := by decide +kernel
  exact ((peekServerName_iff exampleHello honly rfl hfirst hpayload exampleSegments_ne
    hstream 0 false).mpr (by decide +kernel)).1

theorem padding_fits : (List.replicate 4096 (0 : UInt8)).length < UInt16.size := by
  rw [length_replicate]
  decide

/-- The extensions of `exampleHello` behind a padding of 4096 bytes. -/
def paddedExtensions : List Extension :=
  ⟨21, List.replicate 4096 0, padding_fits⟩ :: exampleExtensions

theorem length_paddedExtensions :
    (encodeExtensions paddedExtensions).length
      = 4100 + (encodeExtensions exampleExtensions).length := by
  rw [paddedExtensions, encodeExtensions, flatMap_cons, length_append, Extension.encode]
  simp only [length_append, Bytes.length_uint16, length_replicate, encodeExtensions]

theorem paddedExtensions_fits : (encodeExtensions paddedExtensions).length < UInt16.size := by
  rw [length_paddedExtensions]
  decide +kernel

def paddedHello : Hello :=
  { exampleHello with
    extensions := paddedExtensions
    extensions_fits := paddedExtensions_fits }

theorem paddedSegments_ne : ∀ s ∈ [Segment.mk 0 paddedHello.record], s.data ≠ [] := by
  intro s hs
  rw [mem_singleton.mp hs, Hello.record, Hello.framed]
  exact cons_ne_nil _ _

theorem length_handshake (hello : Hello) :
    hello.handshake.length = (encodeExtensions hello.extensions).length
      + (hello.random.length + hello.sessionID.length + hello.cipherSuites.length
        + hello.compression.length + 12) := by
  simp only [Hello.handshake, Hello.body, Hello.fields, length_cons, length_append,
    Bytes.length_uint16, Bytes.length_uint24]
  omega

theorem length_paddedHello : paddedHello.handshake.length = 4100 + exampleHello.handshake.length := by
  have hextensions : paddedHello.extensions = paddedExtensions := rfl
  rw [length_handshake, length_handshake, hextensions, length_paddedExtensions, Nat.add_assoc]
  rfl

/-- A hello that is longer than the buffer and shorter than a TLS record may
be, all of it there at once. -/
theorem padded_hello_refused :
    paddedHello.handshake.length ≤ 16384
      ∧ (peekServerName 0 false (newPeekConn [⟨0, paddedHello.record⟩] paddedSegments_ne)).2
        = .error (.peek .bufferFull) := by
  have hexample : exampleHello.handshake.length ≤ 4000 := by decide +kernel
  have hlength : paddedHello.handshake.length ≤ 16384
      ∧ defaultBufSize < 5 + paddedHello.handshake.length := by
    rw [length_paddedHello, defaultBufSize]
    generalize exampleHello.handshake.length = n at hexample ⊢
    omega
  have hsize : paddedHello.handshake.length < UInt16.size :=
    Nat.lt_of_le_of_lt hlength.1 (by decide)
  exact ⟨hlength.1, peekServerName_large paddedHello paddedSegments_ne hsize hlength.2⟩

/-! ## Segments do not matter -/

end PeekConn

end LunaEdge
