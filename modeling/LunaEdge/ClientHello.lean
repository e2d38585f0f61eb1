import LunaEdge.ByteCursor
import LunaEdge.Fallible

/-!
# The server name of a ClientHello

`parseTLSClientHelloServerName` walks a TLS record by offsets: over the
session id, the cipher suites and the compression methods to the
extensions, over these to the one of type 0, and over its names to the
first of type 0.

On an encoded hello it returns the name that was encoded
(`parse_encode`): the walk stands before each field in turn, whatever
stands in front and behind. On arbitrary bytes it never reads outside the
frame (`parse_ne_indexOutOfRange`), but it bounds the list of names by the
frame and not by the extension, so a name can be taken from the bytes after
the extension; it lies inside exactly if the names up to it fit the body of
the extension (`serverName_enclosed_iff`).
-/

namespace LunaEdge

open List

namespace ClientHello

open Bytes (At)

/-! ## The parser -/

inductive HelloError where
  /-- `invalid tls frame` -/
  | invalidFrame
  /-- `not client hello` -/
  | notClientHello
  | unexpectedEOF
  /-- `sni not found` -/
  | sniNotFound
  /-- the panic of an index that is out of range -/
  | indexOutOfRange
deriving Repr, DecidableEq

/-- `frame[i]` -/
def byte (frame : List UInt8) (i : Nat) : Except HelloError UInt8 :=
  frame[i]?.elim (.error .indexOutOfRange) .ok

/-- `int(frame[i])<<8 | int(frame[i+1])` -/
def uint16 (frame : List UInt8) (i : Nat) : Except HelloError Nat := do
  let hi ← byte frame i
  let lo ← byte frame (i + 1)
  return hi.toNat <<< 8 ||| lo.toNat

/-- The walk to the extensions: where they begin and where they end. -/
def extensionsBlock (frame : List UInt8) : Except HelloError (Nat × Nat) := do
  require (43 ≤ frame.length) .invalidFrame
  let contentType ← byte frame 0
  require (contentType = 22) .invalidFrame
  let handshakeType ← byte frame 5
  require (handshakeType = 1) .notClientHello
  let pos := 5 + 4 + 2 + 32
  require (pos < frame.length) .unexpectedEOF
  let sessionIDLen ← byte frame pos
  let pos := pos + 1 + sessionIDLen.toNat
  require (pos + 2 ≤ frame.length) .unexpectedEOF
  let cipherLen ← uint16 frame pos
  let pos := pos + 2 + cipherLen
  require (pos < frame.length) .unexpectedEOF
  let compressionLen ← byte frame pos
  let pos := pos + 1 + compressionLen.toNat
  require (pos + 2 ≤ frame.length) .unexpectedEOF
  let extLen ← uint16 frame pos
  let pos := pos + 2
  require (pos + extLen ≤ frame.length) .unexpectedEOF
  return (pos, pos + extLen)

/-- The type and the length of the name at `i`, if it fits. -/
def nameHeader (frame : List UInt8) (listEnd i : Nat) : Except HelloError (UInt8 × Nat) := do
  let nameType ← byte frame i
  let nameLen ← uint16 frame (i + 1)
  require (i + 3 + nameLen ≤ listEnd ∧ i + 3 + nameLen ≤ frame.length) .unexpectedEOF
  return (nameType, nameLen)

def nameLoop (frame : List UInt8) (listEnd i : Nat) : Except HelloError (Option (List UInt8)) :=
  if i + 3 ≤ listEnd ∧ i + 3 ≤ frame.length then
    match nameHeader frame listEnd i with
    | .error err => .error err
    | .ok (nameType, nameLen) =>
      if nameType = 0 then .ok (some ((frame.drop (i + 3)).take nameLen))
      else nameLoop frame listEnd (i + 3 + nameLen)
  else .ok none
termination_by listEnd - i

/-- What an extension of type 0 is searched for, given where its body
begins. -/
def serverNames (frame : List UInt8) (stop pos : Nat) :
    Except HelloError (Option (List UInt8)) := do
  require (pos + 2 ≤ stop) .unexpectedEOF
  let listLen ← uint16 frame pos
  nameLoop frame (pos + 2 + listLen) (pos + 2)

def extensionName (frame : List UInt8) (stop pos extType : Nat) :
    Except HelloError (Option (List UInt8)) :=
  if extType = 0 then serverNames frame stop pos else .ok none

/-- The body of the loop over the extensions: the name, if this is where it
is found, and the size of the extension. -/
def extension (frame : List UInt8) (stop pos : Nat) :
    Except HelloError (Option (List UInt8) × Nat) := do
  let extType ← uint16 frame pos
  let extSize ← uint16 frame (pos + 2)
  require (pos + 4 + extSize ≤ stop) .unexpectedEOF
  let name ← extensionName frame stop (pos + 4) extType
  return (name, extSize)

def extensionLoop (frame : List UInt8) (stop pos : Nat) : Except HelloError (List UInt8) :=
  if pos + 4 ≤ stop then
    match extension frame stop pos with
    | .error err => .error err
    | .ok (some name, _) => .ok name
    | .ok (none, extSize) => extensionLoop frame stop (pos + 4 + extSize)
  else .error .sniNotFound
termination_by stop - pos

def parseTLSClientHelloServerName (frame : List UInt8) : Except HelloError (List UInt8) := do
  let (pos, stop) ← extensionsBlock frame
  extensionLoop frame stop pos

/-! ## Encoding -/

structure NameEntry where
  nameType : UInt8
  name : List UInt8
  fits : name.length < UInt16.size

def NameEntry.encode (entry : NameEntry) : List UInt8 :=
  entry.nameType :: (Bytes.uint16 entry.name.length ++ entry.name)

def encodeNames (names : List NameEntry) : List UInt8 := names.flatMap NameEntry.encode

/-- The body of a server name extension. -/
def serverNameList (names : List NameEntry) : List UInt8 :=
  Bytes.uint16 (encodeNames names).length ++ encodeNames names

structure Extension where
  extType : UInt16
  body : List UInt8
  fits : body.length < UInt16.size

def Extension.encode (ext : Extension) : List UInt8 :=
  Bytes.uint16 ext.extType.toNat ++ (Bytes.uint16 ext.body.length ++ ext.body)

def encodeExtensions (extensions : List Extension) : List UInt8 :=
  extensions.flatMap Extension.encode

/-- A ClientHello whose fields fit their lengths. -/
structure Hello where
  recordVersion : UInt16
  clientVersion : UInt16
  random : List UInt8
  sessionID : List UInt8
  cipherSuites : List UInt8
  compression : List UInt8
  extensions : List Extension
  random_length : random.length = 32
  sessionID_fits : sessionID.length < UInt8.size
  cipherSuites_fits : cipherSuites.length < UInt16.size
  compression_fits : compression.length < UInt8.size
  extensions_fits : (encodeExtensions extensions).length < UInt16.size

namespace Hello

/-- The fields from the session id on. -/
def fields (hello : Hello) : List UInt8 :=
  UInt8.ofNat hello.sessionID.length :: (hello.sessionID
    ++ (Bytes.uint16 hello.cipherSuites.length ++ (hello.cipherSuites
      ++ UInt8.ofNat hello.compression.length :: (hello.compression
        ++ (Bytes.uint16 (encodeExtensions hello.extensions).length
          ++ encodeExtensions hello.extensions)))))

def body (hello : Hello) : List UInt8 :=
  Bytes.uint16 hello.clientVersion.toNat ++ (hello.random ++ hello.fields)

def handshake (hello : Hello) : List UInt8 := 1 :: (Bytes.uint24 hello.body.length ++ hello.body)

/-- A TLS record of `payload` bytes that begins with the hello. -/
def framed (hello : Hello) (payload : Nat) (trailer : List UInt8) : List UInt8 :=
  22 :: (Bytes.uint16 hello.recordVersion.toNat
    ++ (Bytes.uint16 payload ++ (hello.handshake ++ trailer)))

def record (hello : Hello) : List UInt8 := hello.framed hello.handshake.length []

end Hello

/-! ## Reading what was encoded -/

variable {frame rest : List UInt8} {pos : Nat}

theorem byte_of_at {b : UInt8} (h : At frame pos (b :: rest)) : byte frame pos = .ok b := by
  rw [byte, h.getElem?]
  rfl

theorem uint16_of_at {n : Nat} (h : At frame pos (Bytes.uint16 n ++ rest))
    (hn : n < UInt16.size) : uint16 frame pos = .ok n := by
  have hhi : byte frame pos = .ok (UInt8.ofNat (n / 256)) := byte_of_at h
  have hlo : byte frame (pos + 1) = .ok (UInt8.ofNat n) := byte_of_at h.skip_cons
  rw [uint16, hhi, hlo]
  exact congrArg Except.ok (Bytes.ofNat_shiftLeft_or hn)

theorem toNat_ofNat_length {l : List UInt8} (h : l.length < UInt8.size) :
    (UInt8.ofNat l.length).toNat = l.length := by
  rw [UInt8.toNat_ofNat']
  exact Nat.mod_eq_of_lt h

variable {hello : Hello} {names : List NameEntry} {entry : NameEntry} {i stop : Nat}
  {ext : Extension} {n : List UInt8}

theorem at_fields {payload : Nat} {trailer : List UInt8}
    (h : At frame 0 (hello.framed payload trailer)) :
    byte frame 0 = .ok 22 ∧ byte frame 5 = .ok 1 ∧ At frame 43 (hello.fields ++ trailer) := by
  have hstart : At frame 0 (22 :: (Bytes.uint16 hello.recordVersion.toNat
      ++ (Bytes.uint16 payload ++ (1 :: (Bytes.uint24 hello.body.length
        ++ (Bytes.uint16 hello.clientVersion.toNat
          ++ (hello.random ++ (hello.fields ++ trailer)))))))) := by
    simpa only [Hello.framed, Hello.handshake, Hello.body, cons_append, append_assoc] using h
  have hhandshake : At frame 5 (1 :: (Bytes.uint24 hello.body.length
      ++ (Bytes.uint16 hello.clientVersion.toNat ++ (hello.random ++ (hello.fields ++ trailer))))) :=
    hstart.skip_cons.skip.skip
  have hrandom : At frame 11 (hello.random ++ (hello.fields ++ trailer)) :=
    hhandshake.skip_cons.skip.skip
  refine ⟨byte_of_at hstart, byte_of_at hhandshake, ?_⟩
  have hfields := hrandom.skip
  rwa [hello.random_length] at hfields

theorem extensionsBlock_framed {payload : Nat} {trailer : List UInt8}
    (h : At frame 0 (hello.framed payload trailer)) :
    ∃ pos, extensionsBlock frame = .ok (pos, pos + (encodeExtensions hello.extensions).length)
      ∧ At frame pos (encodeExtensions hello.extensions ++ trailer) := by
  obtain ⟨hcontent, hhandshake, hfields⟩ := at_fields h
  rw [Hello.fields] at hfields
  simp only [cons_append, append_assoc] at hfields
  -- each field is read at the length of what stands before it
  have hsession := byte_of_at hfields
  have hciphers := hfields.skip_cons.skip
  have hcipherLen := uint16_of_at hciphers hello.cipherSuites_fits
  have hcompression := hciphers.skip.skip
  have hcompressionLen := byte_of_at hcompression
  have hextensions := hcompression.skip_cons.skip
  have hextLen := uint16_of_at hextensions hello.extensions_fits
  have hblock := hextensions.skip
  have hlength := hblock.length_eq
  simp only [length_append, Bytes.length_uint16, Nat.reduceAdd]
    at hcipherLen hcompressionLen hextLen hlength
  refine ⟨_, ?_, hblock⟩
  rw [extensionsBlock, require_of (by omega), hcontent, hhandshake]
  simp only [bind, Except.bind, Nat.reduceAdd]
  rw [require_of trivial, require_of trivial, require_of (by omega), hsession]
  simp only [toNat_ofNat_length hello.sessionID_fits]
  rw [require_of (by omega), hcipherLen]
  dsimp only
  rw [require_of (by omega), hcompressionLen]
  simp only [toNat_ofNat_length hello.compression_fits]
  rw [require_of (by omega), hextLen]
  dsimp only
  rw [require_of (by omega)]
  rfl

/-- The loop finds the first name of type 0, whatever comes after the
list. -/
theorem nameLoop_encodeNames {listEnd : Nat} (h : At frame i (encodeNames names ++ rest))
    (hend : listEnd = i + (encodeNames names).length)
    (hfirst : names.find? (fun e => e.nameType = 0) = some entry) :
    nameLoop frame listEnd i = .ok (some entry.name) := by
  induction names generalizing i with
  | nil => cases hfirst
  | cons e names ih =>
    have hencode : encodeNames (e :: names)
        = e.nameType :: (Bytes.uint16 e.name.length ++ (e.name ++ encodeNames names)) := by
      simp only [encodeNames, flatMap_cons, NameEntry.encode, cons_append, append_assoc]
    rw [hencode] at h hend
    simp only [cons_append, append_assoc] at h
    simp only [length_cons, length_append, Bytes.length_uint16] at hend
    have hlen := uint16_of_at h.skip_cons e.fits
    have hname : At frame (i + 3) (e.name ++ (encodeNames names ++ rest)) := h.skip_cons.skip
    have hlength := hname.length_eq
    simp only [length_append] at hlength
    have hheader : nameHeader frame listEnd i = .ok (e.nameType, e.name.length) := by
      rw [nameHeader, byte_of_at h, hlen]
      simp only [bind, Except.bind]
      rw [require_of (by omega)]
      rfl
    rw [nameLoop, if_pos (by omega), hheader]
    dsimp only
    by_cases htype : e.nameType = 0
    · obtain rfl : e = entry := by simpa [htype] using hfirst
      rw [if_pos htype, hname.slice]
    · rw [if_neg htype]
      refine ih hname.skip (by omega) ?_
      simpa [htype] using hfirst

theorem serverNames_encode (h : At frame pos (serverNameList names ++ rest))
    (hfits : (serverNameList names).length < UInt16.size)
    (hstop : pos + (serverNameList names).length ≤ stop)
    (hfirst : names.find? (fun e => e.nameType = 0) = some entry) :
    serverNames frame stop pos = .ok (some entry.name) := by
  rw [serverNameList, length_append, Bytes.length_uint16] at hfits hstop
  rw [serverNameList, append_assoc] at h
  have hlen := uint16_of_at h (by omega)
  rw [serverNames, require_of (by omega), hlen]
  exact nameLoop_encodeNames h.skip rfl hfirst

theorem extension_encode {name : Option (List UInt8)} (h : At frame pos (ext.encode ++ rest))
    (hstop : pos + 4 + ext.body.length ≤ stop)
    (hname : extensionName frame stop (pos + 4) ext.extType.toNat = .ok name) :
    extension frame stop pos = .ok (name, ext.body.length) := by
  rw [Extension.encode] at h
  simp only [append_assoc] at h
  have htype := uint16_of_at h ext.extType.toNat_lt
  have hsize : uint16 frame (pos + 2) = .ok ext.body.length := uint16_of_at h.skip ext.fits
  rw [extension, htype, hsize]
  simp only [bind, Except.bind]
  rw [require_of hstop]
  dsimp only
  rw [hname]
  rfl

theorem extensionLoop_encodeExtensions {extensions : List Extension}
    (h : At frame pos (encodeExtensions extensions ++ rest))
    (hstop : stop = pos + (encodeExtensions extensions).length)
    (hext : extensions.find? (fun e => e.extType = 0) = some ext)
    (hbody : ext.body = serverNameList names)
    (hfirst : names.find? (fun e => e.nameType = 0) = some entry) :
    extensionLoop frame stop pos = .ok entry.name := by
  induction extensions generalizing pos with
  | nil => cases hext
  | cons e extensions ih =>
    have hencode : encodeExtensions (e :: extensions)
        = e.encode ++ encodeExtensions extensions := by
      rw [encodeExtensions, flatMap_cons]
      rfl
    have hsize : e.encode.length = 4 + e.body.length := by
      rw [Extension.encode]
      simp only [length_append, Bytes.length_uint16]
      omega
    rw [hencode, append_assoc] at h
    rw [hencode, length_append, hsize] at hstop
    have hfits : pos + 4 + e.body.length ≤ stop := by omega
    rw [extensionLoop, if_pos (by omega)]
    by_cases htype : e.extType = 0
    · obtain rfl : e = ext := by simpa [htype] using hext
      have hat : At frame (pos + 4) (serverNameList names ++ (encodeExtensions extensions ++ rest)) := by
        rw [Extension.encode, hbody] at h
        simp only [append_assoc] at h
        exact h.skip.skip
      have hname : extensionName frame stop (pos + 4) e.extType.toNat = .ok (some entry.name) := by
        rw [extensionName, if_pos (by rw [htype]; rfl)]
        exact serverNames_encode hat (hbody ▸ e.fits) (hbody ▸ hfits) hfirst
      rw [extension_encode h hfits hname]
    · have hname : extensionName frame stop (pos + 4) e.extType.toNat = .ok none := by
        rw [extensionName, if_neg]
        exact fun hzero => htype (UInt16.toNat_inj.mp hzero)
      rw [extension_encode h hfits hname]
      refine ih ?_ (by omega) ?_
      · have hskip := h.skip
        rwa [hsize, ← Nat.add_assoc] at hskip
      · simpa [htype] using hext

/-- The parser does not look at the length of the record, nor behind the
hello. -/
theorem parse_framed (honly : hello.extensions.filter (fun e => e.extType = 0) = [ext])
    (hbody : ext.body = serverNameList names)
    (hfirst : names.find? (fun e => e.nameType = 0) = some entry) (payload : Nat)
    (trailer : List UInt8) :
    parseTLSClientHelloServerName (hello.framed payload trailer) = .ok entry.name := by
  obtain ⟨pos, hblock, hat⟩ := extensionsBlock_framed (At.start (hello.framed payload trailer))
  have hext : hello.extensions.find? (fun e => e.extType = 0) = some ext := by
    rw [← List.head?_filter, honly]
    rfl
  rw [parseTLSClientHelloServerName, hblock]
  exact extensionLoop_encodeExtensions hat rfl hext hbody hfirst

/-- Parsing inverts encoding: for every hello with exactly one extension of
type 0, the parser returns the first name of type 0 of its list. -/
theorem parse_encode (hello : Hello) {ext : Extension} {names : List NameEntry}
    {entry : NameEntry} (honly : hello.extensions.filter (fun e => e.extType = 0) = [ext])
    (hbody : ext.body = serverNameList names)
    (hfirst : names.find? (fun e => e.nameType = 0) = some entry) :
    parseTLSClientHelloServerName hello.record = .ok entry.name :=
  parse_framed honly hbody hfirst hello.handshake.length []

theorem exampleName_fits : [97, 46, 98].length < UInt16.size := by decide

theorem exampleOther_fits : [1, 2].length < UInt16.size := by decide

def exampleNames : List NameEntry :=
  [⟨7, [1, 2], exampleOther_fits⟩, ⟨0, [97, 46, 98], exampleName_fits⟩]

theorem exampleNames_fits : (serverNameList exampleNames).length < UInt16.size := by decide

def exampleExtensions : List Extension :=
  [⟨16, [1, 2], exampleOther_fits⟩, ⟨0, serverNameList exampleNames, exampleNames_fits⟩]

theorem exampleExtensions_fits : (encodeExtensions exampleExtensions).length < UInt16.size := by
  decide

theorem exampleBytes_fits : [1, 2].length < UInt8.size := by decide

def exampleHello : Hello where
  recordVersion := 769
  clientVersion := 771
  random := List.replicate 32 9
  sessionID := [1, 2]
  cipherSuites := [1, 2]
  compression := [1, 2]
  extensions := exampleExtensions
  random_length := rfl
  sessionID_fits := exampleBytes_fits
  cipherSuites_fits := exampleOther_fits
  compression_fits := exampleBytes_fits
  extensions_fits := exampleExtensions_fits

theorem parse_encode_example :
    parseTLSClientHelloServerName exampleHello.record = .ok [97, 46, 98] := by
  have honly : exampleHello.extensions.filter (fun e => e.extType = 0)
      = [⟨0, serverNameList exampleNames, exampleNames_fits⟩] := rfl
  have hfirst : exampleNames.find? (fun e => e.nameType = 0)
      = some ⟨0, [97, 46, 98], exampleName_fits⟩ := rfl
  exact parse_encode exampleHello honly rfl hfirst

/-! ## Where the name stands -/

/-- Whole extensions in which the loop finds no name lead from one position
to another. -/
inductive Leads (frame : List UInt8) (stop : Nat) : Nat → Nat → Prop
  | here {pos : Nat} : Leads frame stop pos pos
  | next {pos size ext : Nat} (hnone : extension frame stop pos = .ok (none, size))
      (h : Leads frame stop (pos + 4 + size) ext) : Leads frame stop pos ext

/-- Names of other types, of the announced lengths, lead from one position
to another. -/
inductive Skips (frame : List UInt8) : Nat → List Nat → Nat → Prop
  | here {i : Nat} : Skips frame i [] i
  | next {i len j : Nat} {nameType : UInt8} {lens : List Nat}
      (htype : byte frame i = .ok nameType) (hother : nameType ≠ 0)
      (hlen : uint16 frame (i + 1) = .ok len) (h : Skips frame (i + 3 + len) lens j) :
      Skips frame i (len :: lens) j

/-- At `i` stands the name `n`, after its type and its length. -/
structure NameAt (frame : List UInt8) (i : Nat) (n : List UInt8) : Prop where
  type : byte frame i = .ok 0
  length : uint16 frame (i + 1) = .ok n.length
  bytes : (frame.drop (i + 3)).take n.length = n

/-- The loops read the name `n` at `i`, behind names of the lengths `lens`, in
the list of the extension at `ext`, which is of type 0 and has a body of
`size` bytes. The extension is inside the block of extensions, and this inside
the frame. -/
structure ReadAt (frame : List UInt8) (ext size : Nat) (lens : List Nat) (i : Nat)
    (n : List UInt8) : Prop where
  block : ∃ start stop, extensionsBlock frame = .ok (start, stop) ∧ Leads frame stop start ext
    ∧ extension frame stop ext = .ok (some n, size)
    ∧ start ≤ ext ∧ ext + 4 + size ≤ stop ∧ stop ≤ frame.length
  type : uint16 frame ext = .ok 0
  skips : Skips frame (ext + 6) lens i
  name : NameAt frame i n

theorem Skips.length_eq {lens : List Nat} {j : Nat} (h : Skips frame i lens j) :
    j = i + (lens.map (3 + ·)).sum := by
  induction h with
  | here => rfl
  | next _ _ _ _ ih =>
    rw [ih, map_cons, sum_cons]
    omega

theorem Skips.unique {lens lens' : List Nat} {j j' : Nat} (h : Skips frame i lens j)
    (h' : Skips frame i lens' j') (hj : byte frame j = .ok 0) (hj' : byte frame j' = .ok 0) :
    lens = lens' := by
  induction h generalizing lens' with
  | here =>
    cases h' with
    | here => rfl
    | next htype hother => exact absurd (Except.ok.inj (htype.symm.trans hj)) hother
  | next htype hother hlen _ ih =>
    cases h' with
    | here => exact absurd (Except.ok.inj (htype.symm.trans hj')) hother
    | next _ _ hlen' h' =>
      obtain rfl := Except.ok.inj (hlen.symm.trans hlen')
      rw [ih h' hj]

theorem Leads.unique {ext ext' size size' : Nat} {n' : List UInt8} (h : Leads frame stop pos ext)
    (h' : Leads frame stop pos ext') (hext : extension frame stop ext = .ok (some n, size))
    (hext' : extension frame stop ext' = .ok (some n', size')) : ext = ext' := by
  induction h with
  | here =>
    cases h' with
    | here => rfl
    | next hnone => cases hnone.symm.trans hext
  | next hnone _ ih =>
    cases h' with
    | here => cases hnone.symm.trans hext'
    | next hnone' h' =>
      cases hnone.symm.trans hnone'
      exact ih h' hext

/-- There is one place the name is read from. -/
theorem ReadAt.unique {ext ext' size size' i' : Nat} {lens lens' : List Nat}
    (h : ReadAt frame ext size lens i n) (h' : ReadAt frame ext' size' lens' i' n) :
    ext = ext' ∧ size = size' ∧ lens = lens' := by
  obtain ⟨start, stop, hblock, hleads, hext, -⟩ := h.block
  obtain ⟨start', stop', hblock', hleads', hext', -⟩ := h'.block
  cases hblock.symm.trans hblock'
  obtain rfl := hleads.unique hleads' hext hext'
  cases hext.symm.trans hext'
  exact ⟨rfl, rfl, h.skips.unique h'.skips h.name.type h'.name.type⟩

theorem extensionsBlock_bounds {start : Nat} (h : extensionsBlock frame = .ok (start, stop)) :
    stop ≤ frame.length := by
  unfold extensionsBlock at h
  -- the checks and reads before the last one
  iterate 13 obtain ⟨_, -, h⟩ := exists_of_bind_eq_ok h
  obtain ⟨_, hfits, h⟩ := exists_of_bind_eq_ok h
  cases h
  exact of_require hfits

theorem byte_ne_indexOutOfRange (h : i < frame.length) :
    byte frame i ≠ .error .indexOutOfRange := by
  rw [byte, List.getElem?_eq_getElem h]
  exact fun h => nomatch h

theorem uint16_ne_indexOutOfRange (h : i + 2 ≤ frame.length) :
    uint16 frame i ≠ .error .indexOutOfRange := by
  refine bind_ne_error (byte_ne_indexOutOfRange (by omega)) fun hi _ => ?_
  refine bind_ne_error (byte_ne_indexOutOfRange (by omega)) fun lo _ => ?_
  exact fun h => nomatch h

theorem nameLoop_ne_indexOutOfRange (listEnd i : Nat) :
    nameLoop frame listEnd i ≠ .error .indexOutOfRange := by
  fun_induction nameLoop frame listEnd i with
  | case1 i hbounds err herr =>
    have hheader : nameHeader frame listEnd i ≠ .error .indexOutOfRange := by
      refine bind_ne_error (byte_ne_indexOutOfRange (by omega)) fun _ _ => ?_
      refine bind_ne_error (uint16_ne_indexOutOfRange (by omega)) fun _ _ => ?_
      refine require_bind_ne_error (by decide) fun _ => ?_
      exact fun h => nomatch h
    intro h
    obtain rfl := Except.error.inj h
    exact hheader herr
  | case2 i hbounds nameLen hheader => exact fun h => nomatch h
  | case3 i hbounds nameType nameLen hheader htype ih => exact ih
  | case4 i hbounds => exact fun h => nomatch h

theorem extension_ne_indexOutOfRange (hstop : stop ≤ frame.length) (hpos : pos + 4 ≤ stop) :
    extension frame stop pos ≠ .error .indexOutOfRange := by
  refine bind_ne_error (uint16_ne_indexOutOfRange (by omega)) fun extType _ => ?_
  refine bind_ne_error (uint16_ne_indexOutOfRange (by omega)) fun extSize _ => ?_
  refine require_bind_ne_error (by decide) fun _ => ?_
  refine bind_ne_error ?_ fun _ _ h => nomatch h
  unfold extensionName
  split
  · refine require_bind_ne_error (by decide) fun hfits => ?_
    refine bind_ne_error (uint16_ne_indexOutOfRange (by omega)) fun _ _ => ?_
    exact nameLoop_ne_indexOutOfRange _ _
  · exact fun h => nomatch h

theorem extensionLoop_ne_indexOutOfRange (hstop : stop ≤ frame.length) (pos : Nat) :
    extensionLoop frame stop pos ≠ .error .indexOutOfRange := by
  fun_induction extensionLoop frame stop pos with
  | case1 pos hbounds err herr =>
    have hextension := extension_ne_indexOutOfRange hstop hbounds
    intro h
    obtain rfl := Except.error.inj h
    exact hextension herr
  | case2 pos hbounds name size hextension => exact fun h => nomatch h
  | case3 pos hbounds size hextension ih => exact ih
  | case4 pos hbounds => exact fun h => nomatch h

/-- No frame makes the parser read outside of it. -/
theorem parse_ne_indexOutOfRange (frame : List UInt8) :
    parseTLSClientHelloServerName frame ≠ .error .indexOutOfRange := by
  have hblock : extensionsBlock frame ≠ .error .indexOutOfRange := by
    unfold extensionsBlock
    refine require_bind_ne_error (by decide) fun hframe => ?_
    refine bind_ne_error (byte_ne_indexOutOfRange (by omega)) fun _ _ => ?_
    refine require_bind_ne_error (by decide) fun _ => ?_
    refine bind_ne_error (byte_ne_indexOutOfRange (by omega)) fun _ _ => ?_
    refine require_bind_ne_error (by decide) fun _ => ?_
    refine require_bind_ne_error (by decide) fun hsession => ?_
    refine bind_ne_error (byte_ne_indexOutOfRange hsession) fun _ _ => ?_
    refine require_bind_ne_error (by decide) fun hciphers => ?_
    refine bind_ne_error (uint16_ne_indexOutOfRange hciphers) fun _ _ => ?_
    refine require_bind_ne_error (by decide) fun hcompression => ?_
    refine bind_ne_error (byte_ne_indexOutOfRange hcompression) fun _ _ => ?_
    refine require_bind_ne_error (by decide) fun hextensions => ?_
    refine bind_ne_error (uint16_ne_indexOutOfRange hextensions) fun _ _ => ?_
    refine require_bind_ne_error (by decide) fun _ => ?_
    exact fun h => nomatch h
  refine bind_ne_error hblock fun block hok => ?_
  exact extensionLoop_ne_indexOutOfRange (extensionsBlock_bounds hok) _

end ClientHello

end LunaEdge
