import Concord.Base.Dict
import Concord.Base.JsonRoundTrip
import Concord.Base.Streams
import Concord.Base.Utf8

/-!
# Messages of the debug adapter through the attach socket

`DockerAdapter._demux` of `debug/docker_adapter.py` takes the adapter's stdout out of the frames of the
attach socket, and `DapClient._read_message` of `debug/dap.py` takes the messages out of that stream.
Either of them reads on at its own pace: they are a pipe.
-/

namespace Concord

open Concord.Base
open CodePoint (ofChar)

/-! ## Texts -/

/-- `c.isspace()`. -/
def isWhitespace (c : CodePoint) : Bool :=
  (9 ≤ c.val && c.val ≤ 13) || (28 ≤ c.val && c.val ≤ 32) || (0x2000 ≤ c.val && c.val ≤ 0x200A) ||
    c.val ∈ [0x85, 0xA0, 0x1680, 0x2028, 0x2029, 0x202F, 0x205F, 0x3000]

/-- `text.rstrip`, of the characters that satisfy `p`. -/
def rstrip (p : CodePoint → Bool) (text : Str) : Str := (text.reverse.dropWhile p).reverse

/-- `text.strip()`. -/
def strip (text : Str) : Str := rstrip isWhitespace (text.dropWhile isWhitespace)

/-- `text.lower()`, of ASCII letters. No other letter has a letter of `content-length` for its lower
case. -/
def lower (text : Str) : Str :=
  text.map fun c => if 65 ≤ c.val && c.val ≤ 90 then Fin.ofNat 0x110000 (c.val + 32) else c

/-- The digits of a number, with single underscores between them. -/
def digitGroups : Bool → Str → Option Str
  | afterDigit, [] => if afterDigit then some [] else none
  | afterDigit, c :: cs =>
    if isDigit c then (digitGroups true cs).map (c :: ·)
    else if afterDigit && c = ofChar '_' then digitGroups false cs
    else none

/-- `int(text)`, of ASCII digits; `none` for a `ValueError`. -/
def parseInt (text : Str) : Option Int :=
  match strip text with
  | [] => none
  | c :: cs =>
    if c = ofChar '-' then (digitGroups false cs).map fun digits => -(natOfDigits digits : Int)
    else if c = ofChar '+' then (digitGroups false cs).map fun digits => (natOfDigits digits : Int)
    else (digitGroups false (c :: cs)).map fun digits => (natOfDigits digits : Int)

/-! ## The demultiplexer -/

/-- `n.to_bytes(k, "big")`. -/
def toBigEndian : Nat → Nat → List UInt8
  | 0, _ => []
  | k + 1, n => toBigEndian k (n / 256) ++ [UInt8.ofNat n]

/-- `int.from_bytes(data, "big")`. -/
def ofBigEndian (data : List UInt8) : Nat := data.foldl (fun n b => 256 * n + b.toNat) 0

/-- A frame of the attach socket: which stream it is of, and what was written to it. -/
structure AttachFrame where
  stream : UInt8
  payload : List UInt8
deriving DecidableEq, Repr

/-- `STDOUT`. -/
def stdoutStream : UInt8 := 1

/-- `STDERR`. -/
def stderrStream : UInt8 := 2

/-- The frame on the wire. -/
def AttachFrame.encode (frame : AttachFrame) : List UInt8 :=
  frame.stream :: 0 :: 0 :: 0 :: (toBigEndian 4 frame.payload.length ++ frame.payload)

/-- What of the frame is the adapter's stdout. -/
def AttachFrame.stdout (frame : AttachFrame) : List UInt8 :=
  if frame.stream = stdoutStream then frame.payload else []

/-- Where `_demux` is: at a header, or at the payload that a header has announced. -/
inductive Demux
  | header
  | payload (stream : UInt8) (size : Nat)
  | ended
deriving DecidableEq, Repr

/-- What `_demux` does: `reader.feed_data`, `self.stderr.append` and `reader.feed_eof`. -/
inductive DemuxOutput
  | feedData (data : List UInt8)
  | stderr (data : List UInt8)
  | feedEof
deriving DecidableEq, Repr

def DemuxOutput.bytes : DemuxOutput → List UInt8
  | feedData data => data
  | stderr _ | feedEof => []

def DemuxOutput.isEof : DemuxOutput → Bool
  | feedEof => true
  | feedData _ | stderr _ => false

/-- What `_demux` does with a frame. -/
def demuxFrame (stream : UInt8) (data : List UInt8) : List DemuxOutput :=
  if stream = stdoutStream then [.feedData data]
  else if stream = stderrStream then [.stderr data]
  else []

/-- `_demux`. -/
def demux : Coroutine Demux DemuxOutput where
  awaits
    | .header => some (.exactly 8)
    | .payload _ size => some (.exactly size)
    | .ended => none
  resume
    | .header, .ok header =>
      (.payload (header.headD 0) (ofBigEndian ((header.drop 4).take 4)), [])
    | .payload stream _, .ok data => (.header, demuxFrame stream data)
    | _, _ => (.ended, [.feedEof])

@[simp] theorem length_toBigEndian (k n : Nat) : (toBigEndian k n).length = k := by
  induction k generalizing n with
  | zero => rfl
  | succ k ih => rw [toBigEndian, List.length_append, ih, List.length_singleton]

theorem ofBigEndian_toBigEndian {k n : Nat} (h : n < 256 ^ k) : ofBigEndian (toBigEndian k n) = n := by
  induction k generalizing n with
  | zero =>
    rw [Nat.pow_zero] at h
    have hn : n = 0 := by omega
    subst hn
    rfl
  | succ k ih =>
    have hdiv : n / 256 < 256 ^ k := by
      rw [Nat.pow_succ] at h
      exact Nat.div_lt_of_lt_mul (by omega)
    have hrest := ih hdiv
    unfold ofBigEndian at hrest ⊢
    rw [toBigEndian, List.foldl_append, hrest]
    simp only [List.foldl_cons, List.foldl_nil, UInt8.toNat_ofNat']
    omega

/-- What `_demux` does with the frames, one after the other. -/
def demuxed (frames : List AttachFrame) : List DemuxOutput :=
  frames.flatMap fun f => demuxFrame f.stream f.payload

theorem bytes_demuxed (frames : List AttachFrame) :
    (demuxed frames).flatMap DemuxOutput.bytes = frames.flatMap AttachFrame.stdout := by
  unfold demuxed
  rw [List.flatMap_assoc]
  congr 1
  funext f
  unfold demuxFrame AttachFrame.stdout
  split
  · simp [DemuxOutput.bytes]
  · split
    · simp [DemuxOutput.bytes]
    · rfl

theorem isEof_demuxed (frames : List AttachFrame) : (demuxed frames).any DemuxOutput.isEof = false := by
  refine List.any_eq_false.2 fun output houtput heof => ?_
  obtain ⟨f, -, houtput⟩ := List.mem_flatMap.1 houtput
  unfold demuxFrame at houtput
  split at houtput
  · obtain rfl := List.mem_singleton.1 houtput
    cases heof
  · split at houtput
    · obtain rfl := List.mem_singleton.1 houtput
      cases heof
    · cases houtput

/-- What `_demux` does with the frames of a connection that then ends. -/
theorem demux_drains (frames : List AttachFrame) (h : ∀ f ∈ frames, f.payload.length < 2 ^ 32) :
    ∃ n, demux.Drains .header (frames.flatMap AttachFrame.encode) (demuxed frames ++ [DemuxOutput.feedEof]) n := by
  induction frames with
  | nil => exact ⟨_, .read rfl rfl rfl (.ended rfl) rfl⟩
  | cons f frames ih =>
    obtain ⟨hf, h⟩ := List.forall_mem_cons.1 h
    obtain ⟨n, hrest⟩ := ih h
    have hheader : (f.stream :: 0 :: 0 :: 0 :: toBigEndian 4 f.payload.length).length = 8 := by simp
    have hsize : ofBigEndian (((f.stream :: 0 :: 0 :: 0 :: toBigEndian 4 f.payload.length).drop 4).take 4) =
        f.payload.length := by
      rw [List.drop_succ_cons, List.drop_succ_cons, List.drop_succ_cons, List.drop_succ_cons,
        List.drop_zero, List.take_of_length_le (by simp)]
      exact ofBigEndian_toBigEndian (by omega)
    have hpayload : demux.Drains (.payload f.stream f.payload.length)
        (f.payload ++ frames.flatMap AttachFrame.encode)
        (demuxFrame f.stream f.payload ++ (demuxed frames ++ [DemuxOutput.feedEof])) (n + 1) :=
      .read rfl (Read.poll_exactly rfl) rfl hrest rfl
    refine ⟨n + 2, ?_⟩
    rw [List.flatMap_cons, demuxed, List.flatMap_cons, List.append_assoc]
    have hframe : f.encode ++ frames.flatMap AttachFrame.encode =
        (f.stream :: 0 :: 0 :: 0 :: toBigEndian 4 f.payload.length) ++
          (f.payload ++ frames.flatMap AttachFrame.encode) := by
      simp [AttachFrame.encode]
    rw [hframe]
    refine .read rfl (Read.poll_exactly hheader) ?_ hpayload (List.nil_append _).symm
    simp only [demux, hsize]
    rfl

/-! ## The messages -/

section Messages

variable {M : Type} (dumps : M → List UInt8) (loads : List UInt8 → Option M)

/-- `Content-Length`. -/
def lengthName : Str :=
  ['C', 'o', 'n', 't', 'e', 'n', 't', '-', 'L', 'e', 'n', 'g', 't', 'h'].map ofChar

/-- `content-length`. -/
def lengthKey : Str :=
  ['c', 'o', 'n', 't', 'e', 'n', 't', '-', 'l', 'e', 'n', 'g', 't', 'h'].map ofChar

def crlf : Str := [ofChar '\r', ofChar '\n']

/-- The header of a message with a body of `length` bytes. -/
def frameHeader (length : Nat) : Str :=
  lengthName ++ [ofChar ':', ofChar ' '] ++ decimal length ++ crlf ++ crlf

/-- What `_send` writes. A header has no surrogate, so its encoding does not fail. -/
def sendBytes (payload : M) : List UInt8 :=
  (encodeUtf8 (frameHeader (dumps payload).length)).getD [] ++ dumps payload

/-- Where `_read_message` is: at a line of the header, or at the body. -/
inductive Reading
  | header (headers : Dict Str Str)
  | body (length : Nat)
  | ended

/-- What a call of `_read_message` comes to. -/
inductive ReadResult (M : Type)
  | message (payload : M)
  | none
  | raised
deriving DecidableEq, Repr

/-- The headers with that of the line, if the line has one. -/
def addHeader (headers : Dict Str Str) (line : Str) : Dict Str Str :=
  if ofChar ':' ∈ line then
    headers.set (lower (strip (line.takeWhile (· ≠ ofChar ':'))))
      (strip (line.dropWhile (· ≠ ofChar ':')).tail)
  else headers

/-- The end of the header: how long the body is. -/
def readLength (headers : Dict Str Str) : Reading × List (ReadResult M) :=
  match parseInt ((headers.get? lengthKey).getD [ofChar '0']) with
  | none => (.ended, [.raised])
  | some length => if length ≤ 0 then (.ended, [.none]) else (.body length.toNat, [])

/-- A line of the header. -/
def readHeader (headers : Dict Str Str) (raw : List UInt8) : Reading × List (ReadResult M) :=
  if raw = [] then (.ended, [.none])
  else match decodeUtf8 raw with
    | none => (.ended, [.raised])
    | some line =>
      let text := rstrip (fun c => c = ofChar '\r' || c = ofChar '\n') line
      if text = [] then readLength headers else (.header (addHeader headers text), [])

/-- The calls of `_read_message` in `_read_loop`, which goes on until one of them raises or returns
`None`. -/
def readMessages : Coroutine Reading (ReadResult M) where
  awaits
    | .header _ => some .line
    | .body length => some (.exactly length)
    | .ended => none
  resume
    | .header headers, .ok raw => readHeader headers raw
    | .body _, .ok data =>
      match loads data with
      | some payload => (.header ∅, [.message payload])
      | none => (.ended, [.raised])
    | _, .error _ => (.ended, [.raised])
    | .ended, .ok _ => (.ended, [])

/-- The adapter's stdout and stderr on the attach socket, `_demux` and the read loop. -/
def dapPipe : Pipe Demux DemuxOutput Reading (ReadResult M) where
  first := demux
  second := readMessages loads
  bytes := DemuxOutput.bytes
  ends := DemuxOutput.isEof

end Messages

/-! ## A header is read back -/

theorem forall_mem_of_all {p : CodePoint → Prop} [DecidablePred p] {text : Str}
    (h : (text.all fun c => p c) = true) : ∀ c ∈ text, p c := fun c hc =>
  of_decide_eq_true (List.all_eq_true.1 h c hc)

/-- A text of ASCII characters, as bytes. -/
def asciiBytes (text : Str) : List UInt8 := text.map fun c => UInt8.ofNat c.val

theorem asciiBytes_append (text tail : Str) :
    asciiBytes (text ++ tail) = asciiBytes text ++ asciiBytes tail := List.map_append

theorem encodeUtf8_ascii {text : Str} (h : ∀ c ∈ text, c.val < 128) :
    encodeUtf8 text = some (asciiBytes text) := by
  have hchar : ∀ v < 128, ∃ hv : Nat.isValidChar v,
      String.utf8EncodeChar (Char.ofNatAux v hv) = [UInt8.ofNat v] := by decide
  induction text with
  | nil => rfl
  | cons c cs ih =>
    obtain ⟨hc, h⟩ := List.forall_mem_cons.1 h
    obtain ⟨chars, hchars, hbytes⟩ := Option.map_eq_some_iff.1 (ih h)
    obtain ⟨hvalid, hencoded⟩ := hchar c.val hc
    have hc' : toChar? c = some (Char.ofNatAux c.val hvalid) := by rw [toChar?, dif_pos hvalid]
    unfold encodeUtf8
    rw [List.mapM_cons, hc', hchars]
    simp only [Option.pure_def, Option.bind_eq_bind, Option.bind_some, Option.map_some,
      List.flatMap_cons, hencoded, hbytes, asciiBytes, List.map_cons, List.singleton_append]

theorem decodeUtf8_ascii {text : Str} (h : ∀ c ∈ text, c.val < 128) :
    decodeUtf8 (asciiBytes text) = some text :=
  decodeUtf8_encodeUtf8 (encodeUtf8_ascii h)

theorem dropWhile_of_head {p : CodePoint → Bool} {text : Str} (h : ∀ c ∈ text.head?, p c = false) :
    text.dropWhile p = text := by
  cases text with
  | nil => rfl
  | cons c cs => rw [List.dropWhile_cons_of_neg (by rw [h c rfl]; exact Bool.false_ne_true)]

theorem rstrip_append {p : CodePoint → Bool} {text tail : Str} (htail : ∀ c ∈ tail, p c = true)
    (htext : ∀ c ∈ text, p c = false) : rstrip p (text ++ tail) = text := by
  unfold rstrip
  rw [List.reverse_append, List.dropWhile_append_of_pos fun c hc => htail c (List.mem_reverse.1 hc),
    dropWhile_of_head, List.reverse_reverse]
  intro c hc
  exact htext c (List.mem_reverse.1 (List.mem_of_mem_head? hc))

theorem strip_of_forall {text : Str} (h : ∀ c ∈ text, isWhitespace c = false) : strip text = text := by
  unfold strip
  rw [dropWhile_of_head fun c hc => h c (List.mem_of_mem_head? hc)]
  have hrstrip : rstrip isWhitespace (text ++ []) = text := rstrip_append nofun h
  rwa [List.append_nil] at hrstrip

theorem digitGroups_of_forall {digits : Str} (h : ∀ c ∈ digits, isDigit c = true) :
    digitGroups true digits = some digits := by
  induction digits with
  | nil => rfl
  | cons c cs ih =>
    obtain ⟨hc, h⟩ := List.forall_mem_cons.1 h
    rw [digitGroups, if_pos hc, ih h, Option.map_some]

/-- A digit is no sign and no space. -/
theorem plain_of_isDigit {c : CodePoint} (h : isDigit c = true) :
    isWhitespace c = false ∧ c ≠ ofChar '-' ∧ c ≠ ofChar '+' ∧ c.val < 128 ∧
      c.val ≠ 13 ∧ c.val ≠ 10 := by
  simp only [isDigit, Bool.and_eq_true, decide_eq_true_eq] at h
  have hspace : isWhitespace c = false := by
    simp only [isWhitespace, Bool.or_eq_false_iff, Bool.and_eq_false_iff, decide_eq_false_iff_not,
      List.mem_cons, List.not_mem_nil, or_false]
    omega
  refine ⟨hspace, ?_, ?_, by omega, by omega, by omega⟩
  · rintro rfl
    revert h
    decide
  · rintro rfl
    revert h
    decide

theorem parseInt_decimal (n : Nat) : parseInt (decimal n) = some (n : Int) := by
  have hdigits : ∀ c ∈ decimal n, isDigit c = true := fun c => isDigit_of_mem_decimal
  have hvalue := natOfDigits_decimal n
  unfold parseInt
  rw [strip_of_forall fun c hc => (plain_of_isDigit (hdigits c hc)).1]
  cases hn : decimal n with
  | nil => exact absurd hn (decimal_ne_nil n)
  | cons c cs =>
    rw [hn] at hdigits hvalue
    obtain ⟨hc, hcs⟩ := List.forall_mem_cons.1 hdigits
    obtain ⟨-, hminus, hplus, -⟩ := plain_of_isDigit hc
    dsimp only
    rw [if_neg hminus, if_neg hplus, digitGroups, if_pos hc, digitGroups_of_forall hcs,
      Option.map_some, Option.map_some, hvalue]

/-! ## The messages are read back -/

section ReadBack

variable {M : Type} {dumps : M → List UInt8} {loads : List UInt8 → Option M}

/-- The line of the header, without its end. -/
def lengthLine (length : Nat) : Str := lengthName ++ [ofChar ':', ofChar ' '] ++ decimal length

theorem lengthLine_plain (length : Nat) :
    ∀ c ∈ lengthLine length, c.val < 128 ∧ c.val ≠ 13 ∧ c.val ≠ 10 := by
  refine List.forall_mem_append.2 ⟨forall_mem_of_all (by decide), fun c hc => ?_⟩
  obtain ⟨-, -, -, hascii, hreturn, hfeed⟩ := plain_of_isDigit (isDigit_of_mem_decimal hc)
  exact ⟨hascii, hreturn, hfeed⟩

theorem ascii_lengthLine (length : Nat) {tail : Str} (h : ∀ c ∈ tail, c.val < 128) :
    ∀ c ∈ lengthLine length ++ tail, c.val < 128 :=
  List.forall_mem_append.2 ⟨fun c hc => (lengthLine_plain _ c hc).1, h⟩

/-- Two lines, of which the second is blank, and then the body. -/
theorem sendBytes_eq (payload : M) :
    sendBytes dumps payload =
      asciiBytes (lengthLine (dumps payload).length ++ [ofChar '\r']) ++
        newline :: ([13] ++ newline :: dumps payload) := by
  have hheader : frameHeader (dumps payload).length =
      lengthLine (dumps payload).length ++ (crlf ++ crlf) := List.append_assoc _ _ _
  have hencode : encodeUtf8 (frameHeader (dumps payload).length) =
      some (asciiBytes (lengthLine (dumps payload).length ++ (crlf ++ crlf))) := by
    rw [hheader]
    exact encodeUtf8_ascii (ascii_lengthLine _ (forall_mem_of_all (by decide)))
  have hbreaks : asciiBytes crlf = [13, newline] := by decide
  have hreturn : asciiBytes [ofChar '\r'] = [13] := by decide
  unfold sendBytes
  rw [hencode, Option.getD_some, asciiBytes_append, asciiBytes_append, asciiBytes_append, hbreaks,
    hreturn]
  simp only [List.append_assoc, List.cons_append, List.nil_append]

/-- The line break of the header. -/
theorem rstrip_crlf {text : Str} (h : ∀ c ∈ text, c.val ≠ 13 ∧ c.val ≠ 10) :
    rstrip (fun c => c = ofChar '\r' || c = ofChar '\n') (text ++ crlf) = text := by
  refine rstrip_append (forall_mem_of_all (by decide)) fun c hc => ?_
  obtain ⟨hreturn, hfeed⟩ := h c hc
  rw [Bool.or_eq_false_iff, decide_eq_false_iff_not, decide_eq_false_iff_not]
  constructor
  · rintro rfl
    exact hreturn rfl
  · rintro rfl
    exact hfeed rfl

theorem addHeader_lengthLine (length : Nat) :
    addHeader ∅ (lengthLine length) = (∅ : Dict Str Str).set lengthKey (decimal length) := by
  have hline : lengthLine length = lengthName ++ ofChar ':' :: (ofChar ' ' :: decimal length) := by
    simp [lengthLine]
  have hplain : ∀ c ∈ lengthName, decide (c ≠ ofChar ':') = true :=
    forall_mem_of_all (by decide)
  have hlower : lower (strip lengthName) = lengthKey := by decide
  have hdigits : strip (ofChar ' ' :: decimal length) = decimal length := by
    have hspace : ∀ c ∈ decimal length, isWhitespace c = false := fun c hc =>
      (plain_of_isDigit (isDigit_of_mem_decimal hc)).1
    have hstrip := strip_of_forall hspace
    unfold strip at hstrip ⊢
    rwa [List.dropWhile_cons_of_pos (by decide)]
  unfold addHeader
  rw [hline, if_pos (by simp), List.takeWhile_append_of_pos hplain,
    List.dropWhile_append_of_pos hplain, List.takeWhile_cons_of_neg (by decide),
    List.dropWhile_cons_of_neg (by decide), List.append_nil, hlower, List.tail_cons, hdigits]

theorem readHeader_lengthLine (length : Nat) :
    readHeader (M := M) ∅ (asciiBytes (lengthLine length ++ [ofChar '\r']) ++ [newline]) =
      (.header ((∅ : Dict Str Str).set lengthKey (decimal length)), []) := by
  have hline : asciiBytes (lengthLine length ++ [ofChar '\r']) ++ [newline] =
      asciiBytes (lengthLine length ++ crlf) := by
    rw [asciiBytes_append, asciiBytes_append, List.append_assoc]
    rfl
  unfold readHeader
  rw [if_neg (by simp), hline, decodeUtf8_ascii (ascii_lengthLine _ (forall_mem_of_all (by decide)))]
  dsimp only
  rw [rstrip_crlf fun c hc => (lengthLine_plain length c hc).2, if_neg (by simp [lengthLine]),
    addHeader_lengthLine]

theorem readHeader_blank {length : Nat} (hpos : 0 < length) :
    readHeader (M := M) ((∅ : Dict Str Str).set lengthKey (decimal length)) ([13] ++ [newline]) =
      (.body length, []) := by
  have hbytes : asciiBytes ([] ++ crlf) = [13] ++ [newline] := by decide
  have hline : decodeUtf8 ([13] ++ [newline]) = some ([] ++ crlf) :=
    hbytes ▸ decodeUtf8_ascii (forall_mem_of_all (by decide))
  have hstrip : rstrip (fun c => c = ofChar '\r' || c = ofChar '\n') ([] ++ crlf) = [] :=
    rstrip_crlf fun _ h => nomatch h
  unfold readHeader
  rw [if_neg (by simp), hline]
  dsimp only
  rw [hstrip, if_pos rfl, readLength, Dict.get?_set_self, Option.getD_some, parseInt_decimal]
  dsimp only
  rw [if_neg (by omega), Int.toNat_natCast]

theorem length_decimal_le {n k : Nat} (hk : 0 < k) (h : n < 10 ^ k) : (decimal n).length ≤ k := by
  unfold decimal
  split
  · exact hk
  · rw [List.length_reverse, List.length_map]
    exact (Nat.digits_length_le_iff (by decide) n).2 h

/-- The read loop returns the messages of a stream of messages, and then `None`. A body is not empty, and
its length is a machine integer. -/
theorem readMessages_drains (messages : List M)
    (hloads : ∀ m ∈ messages, loads (dumps m) = some m)
    (hsize : ∀ m ∈ messages, 0 < (dumps m).length ∧ (dumps m).length < 2 ^ 63) :
    ∃ n, (readMessages loads).Drains (.header ∅) (messages.flatMap (sendBytes dumps))
      (messages.map .message ++ [ReadResult.none]) n := by
  induction messages with
  | nil => exact ⟨_, .read rfl rfl rfl (.ended rfl) rfl⟩
  | cons m messages ih =>
    obtain ⟨hm, hloads⟩ := List.forall_mem_cons.1 hloads
    obtain ⟨⟨hpos, hlt⟩, hsize⟩ := List.forall_mem_cons.1 hsize
    obtain ⟨n, hrest⟩ := ih hloads hsize
    have hbody : (readMessages loads).Drains (.body (dumps m).length)
        (dumps m ++ messages.flatMap (sendBytes dumps))
        (.message m :: (messages.map .message ++ [ReadResult.none])) (n + 1) := by
      refine .read rfl (Read.poll_exactly rfl) ?_ hrest (List.singleton_append).symm
      simp only [readMessages, hm]
    have hblank : (readMessages loads).Drains
        (.header ((∅ : Dict Str Str).set lengthKey (decimal (dumps m).length)))
        ([13] ++ newline :: (dumps m ++ messages.flatMap (sendBytes dumps)))
        (.message m :: (messages.map .message ++ [ReadResult.none])) (n + 2) :=
      .read rfl (Read.poll_line (by decide) (by decide)) (readHeader_blank hpos) hbody rfl
    refine ⟨n + 3, ?_⟩
    have hstream : (m :: messages).flatMap (sendBytes dumps) =
        asciiBytes (lengthLine (dumps m).length ++ [ofChar '\r']) ++
          newline :: ([13] ++ newline :: (dumps m ++ messages.flatMap (sendBytes dumps))) := by
      rw [List.flatMap_cons, sendBytes_eq]
      simp only [List.append_assoc, List.cons_append, List.nil_append]
    rw [hstream]
    refine .read rfl (Read.poll_line ?_ ?_) (readHeader_lengthLine _) hblank rfl
    · intro hmem
      obtain ⟨c, hc, hnewline⟩ := List.mem_map.1 hmem
      rcases List.mem_append.1 hc with hc | hc
      · obtain ⟨hascii, -, hfeed⟩ := lengthLine_plain _ c hc
        have hval := congrArg UInt8.toNat hnewline
        rw [UInt8.toNat_ofNat'] at hval
        have hnl : newline.toNat = 10 := rfl
        omega
      · rw [List.mem_singleton.1 hc] at hnewline
        revert hnewline
        decide
    · have hdigits : (decimal (dumps m).length).length ≤ 19 :=
        length_decimal_le (by decide) (by omega)
      have hname : lengthName.length = 14 := rfl
      have hlimit : streamLimit = 65536 := rfl
      simp only [asciiBytes, lengthLine, List.length_map, List.length_append, List.length_cons,
        List.length_nil]
      omega

variable (dumps loads) in
/-- **The messages of the adapter survive the attach socket**: its stdout can be cut into frames in any
way, with frames of other streams between them, and the socket can deliver them in any chunks, at any
time. The reader is fed the adapter's stdout, the calls of `_read_message` return the messages in their
order and then `None`, and they come to that after finitely many steps. -/
theorem dap_framing_survives (messages : List M) (frames : List AttachFrame)
    (chunks : List (List UInt8)) (hloads : ∀ m ∈ messages, loads (dumps m) = some m)
    (hsize : ∀ m ∈ messages, 0 < (dumps m).length ∧ (dumps m).length < 2 ^ 63)
    (hframes : ∀ f ∈ frames, f.payload.length < 2 ^ 32)
    (hstdout : frames.flatMap AttachFrame.stdout = messages.flatMap (sendBytes dumps))
    (hchunks : chunks.flatten = frames.flatMap AttachFrame.encode) :
    ∃ steps, ∀ ls st,
      ((dapPipe loads).system .header (.header ∅) chunks).replay System.anyStep
        ((dapPipe loads).system .header (.header ∅) chunks).init ls = some st →
      st.emitted.flatMap DemuxOutput.bytes <+: messages.flatMap (sendBytes dumps) ∧
        st.results <+: messages.map .message ++ [.none] ∧ ls.length ≤ steps ∧
        ((∀ l, (dapPipe loads).step st l = none) →
          st.emitted.flatMap DemuxOutput.bytes = messages.flatMap (sendBytes dumps) ∧
            st.results = messages.map .message ++ [.none]) := by
  obtain ⟨n, hdemux⟩ := demux_drains frames hframes
  obtain ⟨m, hread⟩ := readMessages_drains messages hloads hsize
  rw [← hchunks] at hdemux
  have hfed : (demuxed frames ++ [DemuxOutput.feedEof]).flatMap DemuxOutput.bytes =
      messages.flatMap (sendBytes dumps) := by
    rw [← hstdout, List.flatMap_append, bytes_demuxed]
    exact List.append_nil _
  rw [← hfed] at hread ⊢
  refine ⟨chunks.length + 1 + n + m, fun ls st hrun => ?_⟩
  obtain ⟨hemitted, hresults, hsteps, hcomplete⟩ :=
    Pipe.run (p := dapPipe loads) hdemux hread (isEof_demuxed frames) rfl hrun
  refine ⟨?_, hresults, hsteps, fun hstuck => ?_⟩
  · obtain ⟨rest, hrest⟩ := hemitted
    rw [← hrest, List.flatMap_append]
    exact List.prefix_append _ _
  · obtain ⟨hall, hread⟩ := hcomplete hstuck
    exact ⟨by rw [hall], hread⟩

end ReadBack

/-! ## One message in two pieces -/

/-- `json.dumps({})`. -/
def dumpsEmpty (_ : Unit) : List UInt8 := [123, 125]

/-- `json.loads`, of an empty object. -/
def loadsEmpty (data : List UInt8) : Option Unit := if data = [123, 125] then some () else none

/-- A message in two frames, with one of stderr between them. -/
def cutFrames : List AttachFrame :=
  [⟨stdoutStream, (sendBytes dumpsEmpty ()).take 20⟩, ⟨stderrStream, [120]⟩,
    ⟨stdoutStream, (sendBytes dumpsEmpty ()).drop 20⟩]

/-- The frames in two chunks, with the first header in both. -/
def cutChunks : List (List UInt8) :=
  [(cutFrames.flatMap AttachFrame.encode).take 5, (cutFrames.flatMap AttachFrame.encode).drop 5]

theorem dap_framing_survives_one : ∃ ls st,
    ((dapPipe loadsEmpty).system .header (.header ∅) cutChunks).replay System.anyStep
      ((dapPipe loadsEmpty).system .header (.header ∅) cutChunks).init ls = some st ∧
    st.results = [.message (), .none] := by
  have hrun : (((dapPipe loadsEmpty).system .header (.header ∅) cutChunks).replay System.anyStep
      ((dapPipe loadsEmpty).system .header (.header ∅) cutChunks).init
      (List.flatten [[.arrive, .arrive, .hangUp], List.replicate 7 .first, List.replicate 4 .second])).any
      (fun st => [Pipe.Label.arrive, .hangUp, .first, .second].all fun l =>
        ((dapPipe loadsEmpty).step st l).isNone) = true := by
    decide +kernel
  obtain ⟨st, hst, hstuck⟩ := (Option.any_eq_true _ _).1 hrun
  obtain ⟨steps, hsurvives⟩ := dap_framing_survives dumpsEmpty loadsEmpty [()] cutFrames cutChunks
    (by decide) (by decide) (by decide +kernel) (by decide +kernel) (by simp [cutChunks])
  refine ⟨_, st, hst, ((hsurvives _ st hst).2.2.2 fun l => ?_).2⟩
  have hall := List.all_eq_true.1 hstuck
  cases l with
  | arrive => exact Option.isNone_iff_eq_none.1 (hall .arrive (by decide))
  | hangUp => exact Option.isNone_iff_eq_none.1 (hall .hangUp (by decide))
  | first => exact Option.isNone_iff_eq_none.1 (hall .first (by decide))
  | second => exact Option.isNone_iff_eq_none.1 (hall .second (by decide))

end Concord
