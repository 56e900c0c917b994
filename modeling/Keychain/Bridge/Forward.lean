import Keychain.Common.Util
import Keychain.Library.Utf8
import Mathlib.Data.List.TakeWhile

namespace keychain.bridge

/-- `"DEBUG:" in data.decode("utf-8", "ignore")`. -/
def has_debug (data : List UInt8) : Bool :=
  decide ((ascii "DEBUG:").map UInt8.toNat <:+: utf8.decode_ignore data)

/-- What the bridge does with one result of `ser.read(4096)`: the new value of
    `tls_active`, and the bytes it hands to `sock.sendall`. -/
def bridge_read (tls_active : Bool) (data : List UInt8) : Bool × List UInt8 :=
  if data = [] then (tls_active, [])
  else if has_debug data then (tls_active, [])
  else if tls_active then (tls_active, data)
  else if 0x16 ∈ data then (true, data.dropWhile (· ≠ 0x16))
  else (tls_active, [])

/-- What the device writes to the serial port: a TLS record or a text. -/
inductive Message where
  | record (bytes : List UInt8)
  | text (bytes : List UInt8)

/-- A byte on the serial port, with whether it belongs to a record. -/
abbrev Labelled := List (UInt8 × Bool)

def Labelled.bytes (read : Labelled) : List UInt8 :=
  read.map (·.1)

def Labelled.record_bytes (read : Labelled) : List UInt8 :=
  Labelled.bytes (read.filter (·.2))

def Message.labelled : Message → Labelled
  | .record bytes => bytes.map fun byte => (byte, true)
  | .text bytes => bytes.map fun byte => (byte, false)

def Message.record_bytes : Message → List UInt8
  | .record bytes => bytes
  | .text _ => []

/-- A text is the output of `debug_printf` and holds no byte `0x16`; the first
    record starts with that byte. -/
structure DeviceOutput (messages : List Message) : Prop where
  text_start : ∀ bytes, .text bytes ∈ messages → ascii "DEBUG: " <+: bytes
  text_free : ∀ bytes, .text bytes ∈ messages → 0x16 ∉ bytes
  first_record : ∀ before bytes after, messages = before ++ .record bytes :: after →
    (∀ other, .record other ∉ before) → bytes.head? = some 0x16

/-- A read that the bridge takes for text has no byte of a record. Any other read
    has no byte of a text, at least not behind the start of the first record:
    `begun` tells whether that came in an earlier read. -/
def Separated (begun : Bool) (read : Labelled) : Prop :=
  if has_debug read.bytes then ∀ mark ∈ read, mark.2 = false
  else if begun then ∀ mark ∈ read, mark.2 = true
  else ∀ mark ∈ read.dropWhile (!·.2), mark.2 = true

/-- The ghost of a run: whether the first record has begun. -/
def begin (begun : Bool) (read : Labelled) : Bool × Unit :=
  (begun || read.any (·.2), ())

/-- What is known of the bytes on the wire without knowing the messages. -/
structure WellLabelled (begun : Bool) (stream : Labelled) : Prop where
  text_free : ∀ mark ∈ stream, mark.2 = false → mark.1 ≠ 0x16
  first_record : begun = false → ∀ mark, stream.find? (·.2) = some mark → mark.1 = 0x16

theorem Labelled.bytes_eq_record_bytes_iff (read : Labelled) :
    read.bytes = read.record_bytes ↔ ∀ mark ∈ read, mark.2 = true := by
  rw [← List.filter_eq_self]
  constructor
  · intro h
    have hlength := congrArg List.length h
    simp only [Labelled.bytes, Labelled.record_bytes, List.length_map] at hlength
    exact List.filter_sublist.eq_of_length hlength.symm
  · intro h
    rw [Labelled.record_bytes, h]

theorem Labelled.record_bytes_eq_nil_iff (read : Labelled) :
    read.record_bytes = [] ↔ ∀ mark ∈ read, mark.2 = false := by
  simp [Labelled.record_bytes, Labelled.bytes, List.filter_eq_nil_iff]

/-- A read holds no byte of a record, or has a first one behind some text. -/
theorem Labelled.split (read : Labelled) :
    (∀ mark ∈ read, mark.2 = false) ∨
      ∃ texts first more, read = texts ++ (first, true) :: more ∧ ∀ mark ∈ texts, mark.2 = false := by
  induction read with
  | nil => exact .inl (by simp)
  | cons mark read ih =>
    obtain ⟨byte, label⟩ := mark
    cases label with
    | true => exact .inr ⟨[], byte, read, rfl, by simp⟩
    | false =>
      obtain hall | ⟨texts, first, more, rfl, htexts⟩ := ih
      · exact .inl (by simpa using hall)
      · exact .inr ⟨(byte, false) :: texts, first, more, rfl, by simpa using htexts⟩

theorem WellLabelled.rest {begun : Bool} {read rest : Labelled}
    (h : WellLabelled begun (read ++ rest)) : WellLabelled (begin begun read).1 rest := by
  refine ⟨fun mark hmark => h.text_free mark (List.mem_append_right _ hmark), ?_⟩
  intro hbegin mark hfind
  obtain ⟨hbegun, hnone⟩ := Bool.or_eq_false_iff.mp hbegin
  apply h.first_record hbegun
  rw [List.find?_append, List.find?_eq_none.mpr (by simpa using hnone)]
  exact hfind

/-- A read that comes before the first record, up to that record. -/
theorem WellLabelled.before_record {texts more rest : Labelled} {first : UInt8}
    (h : WellLabelled false (texts ++ (first, true) :: more ++ rest))
    (htexts : ∀ mark ∈ texts, mark.2 = false) : first = 0x16 ∧ 0x16 ∉ texts.bytes := by
  constructor
  · apply h.first_record rfl (first, true)
    rw [List.append_assoc, List.find?_append, List.find?_eq_none.mpr (by simpa using htexts)]
    rfl
  · intro hmem
    obtain ⟨mark, hmark, hbyte⟩ := List.mem_map.mp hmem
    exact h.text_free mark (by simp [hmark]) (htexts mark hmark) hbyte

theorem separated_nil (begun : Bool) : Separated begun [] := by
  have hall : ∀ mark ∈ ([] : Labelled), mark.2 = true := fun _ hmark => absurd hmark List.not_mem_nil
  have hdebug : has_debug (Labelled.bytes []) = false := by decide
  rw [Separated, hdebug, if_neg Bool.false_ne_true]
  cases begun with
  | false => exact hall
  | true => exact hall

/-- The bridge forwards the record bytes of a read, and no others, exactly if
    the read is separated; its mode then tells whether a record has begun. -/
theorem bridge_read_iff {begun : Bool} {read rest : Labelled}
    (h : WellLabelled begun (read ++ rest)) :
    ((bridge_read begun read.bytes).2 = read.record_bytes ↔ Separated begun read) ∧
      (Separated begun read → (bridge_read begun read.bytes).1 = (begin begun read).1) := by
  by_cases hnil : read = []
  · subst hnil
    refine ⟨iff_of_true rfl (separated_nil begun), fun _ => ?_⟩
    simp [bridge_read, Labelled.bytes, begin]
  have hbytes : read.bytes ≠ [] := by simpa [Labelled.bytes] using hnil
  rw [bridge_read, if_neg hbytes, Separated]
  by_cases hdebug : has_debug read.bytes = true
  · rw [if_pos hdebug, if_pos hdebug]
    refine ⟨eq_comm.trans read.record_bytes_eq_nil_iff, fun htext => ?_⟩
    have hnone : read.any (·.2) = false := by simpa using htext
    simp [begin, hnone]
  rw [if_neg hdebug, if_neg hdebug]
  cases begun with
  | true => exact ⟨read.bytes_eq_record_bytes_iff, fun _ => rfl⟩
  | false =>
    obtain htext | ⟨texts, first, more, rfl, htexts⟩ := read.split
    · have hfree : 0x16 ∉ read.bytes := by
        intro hmem
        obtain ⟨mark, hmark, hbyte⟩ := List.mem_map.mp hmem
        exact h.text_free mark (List.mem_append_left _ hmark) (htext mark hmark) hbyte
      have hdrop : read.dropWhile (!·.2) = [] :=
        List.dropWhile_eq_nil_iff.mpr fun mark hmark => by simp [htext mark hmark]
      have hnone : read.any (·.2) = false := by simpa using htext
      simp [hfree, hdrop, begin, hnone, read.record_bytes_eq_nil_iff.mpr htext]
    · obtain ⟨rfl, hfree⟩ := h.before_record htexts
      have hdrop : (texts ++ (0x16, true) :: more).dropWhile (!·.2) = (0x16, true) :: more := by
        rw [List.dropWhile_append_of_pos fun mark hmark => by simp [htexts mark hmark]]
        rfl
      have hsent : (Labelled.bytes (texts ++ (0x16, true) :: more)).dropWhile (· ≠ 0x16) =
          0x16 :: Labelled.bytes more := by
        have hskip : ∀ byte ∈ Labelled.bytes texts, decide (byte ≠ 0x16) = true := by
          intro byte hbyte
          exact decide_eq_true fun heq => hfree (heq ▸ hbyte)
        have hbytes : Labelled.bytes (texts ++ (0x16, true) :: more) =
            Labelled.bytes texts ++ 0x16 :: Labelled.bytes more := by simp [Labelled.bytes]
        rw [hbytes, List.dropWhile_append_of_pos hskip]
        rfl
      have hrecords : Labelled.record_bytes (texts ++ (0x16, true) :: more) =
          0x16 :: Labelled.record_bytes more := by
        have htext : texts.filter (·.2) = [] := by simpa using htexts
        simp [Labelled.record_bytes, Labelled.bytes, htext]
      have hmem : 0x16 ∈ Labelled.bytes (texts ++ (0x16, true) :: more) := by
        simp [Labelled.bytes]
      simp only [Bool.false_eq_true, if_false, if_pos hmem, hdrop, hsent, hrecords, List.cons.injEq,
        true_and, List.mem_cons, forall_eq_or_imp, Labelled.bytes_eq_record_bytes_iff more]
      intro _
      simp [begin]

/-- The bridge forwards from every read that read's own record bytes exactly if
    every read is separated. -/
theorem bridge_run_iff {begun : Bool} (reads : List Labelled)
    (h : WellLabelled begun reads.flatten) :
    (machine.run bridge_read begun (reads.map Labelled.bytes)).2 =
        reads.map Labelled.record_bytes ↔
      machine.Admits begin Separated begun reads := by
  induction reads generalizing begun with
  | nil => exact iff_of_true rfl trivial
  | cons read reads ih =>
    rw [List.flatten_cons] at h
    obtain ⟨hsent, hmode⟩ := bridge_read_iff h
    rw [List.map_cons, machine.run_cons, List.map_cons, List.cons.injEq, hsent]
    refine and_congr_right fun hseparated => ?_
    rw [hmode hseparated]
    exact ih h.rest

def stream (messages : List Message) : Labelled :=
  messages.flatMap Message.labelled

/-- The concatenation of the records. -/
def records (messages : List Message) : List UInt8 :=
  messages.flatMap Message.record_bytes

theorem record_bytes_stream (messages : List Message) :
    (stream messages).record_bytes = records messages := by
  induction messages with
  | nil => rfl
  | cons message messages ih =>
    have happend : (stream (message :: messages)).record_bytes =
        message.labelled.record_bytes ++ (stream messages).record_bytes := by
      simp [stream, Labelled.record_bytes, Labelled.bytes]
    rw [happend, ih]
    cases message <;>
      simp [Message.labelled, Labelled.record_bytes, Labelled.bytes, Message.record_bytes, records,
        List.filter_map, Function.comp_def]

theorem record_bytes_flatten (reads : List Labelled) :
    (reads.map Labelled.record_bytes).flatten = Labelled.record_bytes reads.flatten := by
  induction reads with
  | nil => rfl
  | cons read reads ih =>
    rw [List.map_cons, List.flatten_cons, ih, List.flatten_cons]
    simp [Labelled.record_bytes, Labelled.bytes]

theorem DeviceOutput.tail {bytes : List UInt8} {messages : List Message}
    (h : DeviceOutput (.text bytes :: messages)) : DeviceOutput messages where
  text_start other hother := h.text_start other (List.mem_cons_of_mem _ hother)
  text_free other hother := h.text_free other (List.mem_cons_of_mem _ hother)
  first_record before other after hsplit hnone := by
    apply h.first_record (.text bytes :: before) other after (by rw [hsplit]; rfl)
    simpa using hnone

theorem DeviceOutput.wellLabelled {messages : List Message} (h : DeviceOutput messages) :
    WellLabelled false (stream messages) := by
  constructor
  · intro mark hmark hlabel hbyte
    obtain ⟨message, hmessage, hmem⟩ := List.mem_flatMap.mp hmark
    cases message with
    | record bytes =>
      obtain ⟨byte, -, rfl⟩ := List.mem_map.mp hmem
      cases hlabel
    | text bytes =>
      obtain ⟨byte, hold, rfl⟩ := List.mem_map.mp hmem
      exact h.text_free bytes hmessage (hbyte ▸ hold)
  · intro _ mark hfind
    induction messages with
    | nil => simp [stream] at hfind
    | cons message messages ih =>
      rw [stream, List.flatMap_cons, List.find?_append] at hfind
      cases message with
      | record bytes =>
        have hhead := h.first_record [] bytes messages rfl (by simp)
        obtain ⟨rest, rfl⟩ := List.head?_eq_some_iff.mp hhead
        cases hfind
        rfl
      | text bytes =>
        have hskip : (Message.text bytes).labelled.find? (·.2) = none := by
          simp [Message.labelled]
        rw [hskip] at hfind
        exact ih h.tail hfind

/-- The bytes of the records are what the bridge sends if the serial port cuts
    the stream so that every read is separated. Read by read, the bridge sends
    the read's own record bytes exactly then. -/
theorem bridge_forwards_records_iff (messages : List Message) (hmessages : DeviceOutput messages)
    (reads : List Labelled) (hreads : reads.flatten = stream messages) :
    let sent := (machine.run bridge_read false (reads.map Labelled.bytes)).2
    (sent = reads.map Labelled.record_bytes ↔ machine.Admits begin Separated false reads) ∧
      (machine.Admits begin Separated false reads → sent.flatten = records messages) := by
  intro sent
  have hrun := bridge_run_iff reads (hreads ▸ hmessages.wellLabelled)
  refine ⟨hrun, fun hseparated => ?_⟩
  have hsent : sent = reads.map Labelled.record_bytes := hrun.mpr hseparated
  rw [hsent, record_bytes_flatten, hreads, record_bytes_stream]

theorem Message.bytes_labelled (bytes : List UInt8) (label : Bool) :
    Labelled.bytes (bytes.map fun byte => (byte, label)) = bytes := by
  simp [Labelled.bytes, Function.comp_def]

theorem has_debug_of_infix {data : List UInt8} (h : ascii "DEBUG:" <:+: data) :
    has_debug data = true := by
  have hascii : (ascii "DEBUG:").all (· < 0x80) = true := by decide
  refine decide_eq_true (utf8.infix_decode_ignore (fun byte hbyte => ?_) h)
  exact of_decide_eq_true (List.all_eq_true.mp hascii byte hbyte)

/-- Reads that hold one message each are separated, unless a record happens to
    hold the marker. -/
theorem separated_of_messages {messages : List Message}
    (htext : ∀ bytes, .text bytes ∈ messages → ascii "DEBUG: " <+: bytes)
    (hrecord : ∀ bytes, .record bytes ∈ messages → has_debug bytes = false) (begun : Bool) :
    machine.Admits begin Separated begun (messages.map Message.labelled) := by
  induction messages generalizing begun with
  | nil => trivial
  | cons message messages ih =>
    refine ⟨?_, ih (fun bytes hmem => htext bytes (List.mem_cons_of_mem _ hmem))
      (fun bytes hmem => hrecord bytes (List.mem_cons_of_mem _ hmem)) _⟩
    cases message with
    | record bytes =>
      have hall : ∀ mark ∈ (Message.record bytes).labelled, mark.2 = true := by
        simp [Message.labelled]
      have hdebug : has_debug (Message.record bytes).labelled.bytes = false := by
        rw [Message.labelled, Message.bytes_labelled]
        exact hrecord bytes List.mem_cons_self
      rw [Separated, hdebug, if_neg Bool.false_ne_true]
      split_ifs
      · exact hall
      · exact fun mark hmark => hall mark (List.dropWhile_subset _ hmark)
    | text bytes =>
      have hdebug : has_debug (Message.text bytes).labelled.bytes = true := by
        rw [Message.labelled, Message.bytes_labelled]
        obtain ⟨rest, hrest⟩ := htext bytes List.mem_cons_self
        exact has_debug_of_infix ⟨[], 0x20 :: rest, hrest⟩
      rw [Separated, if_pos hdebug]
      simp [Message.labelled]

/-- A record and the text that the device prints after it. -/
def flight : List Message :=
  [.record [0x16, 0x03, 0x03, 0x00, 0x01, 0x00], .text (ascii "DEBUG: sent")]

theorem flight_output : DeviceOutput flight where
  text_start bytes hbytes := by
    have heq : bytes = ascii "DEBUG: sent" := by simpa [flight] using hbytes
    rw [heq]
    decide
  text_free bytes hbytes := by
    have heq : bytes = ascii "DEBUG: sent" := by simpa [flight] using hbytes
    rw [heq]
    decide
  first_record before bytes after hsplit hnone := by
    cases before with
    | nil =>
      obtain ⟨rfl, -⟩ : _ = bytes ∧ _ := by simpa [flight] using hsplit
      rfl
    | cons other before =>
      obtain ⟨rfl, -⟩ := List.cons.inj hsplit
      exact absurd List.mem_cons_self (hnone _)

/-- Read message by message, the record arrives. -/
theorem bridge_forwards_records_flight :
    let sent := (machine.run bridge_read false
      ((flight.map Message.labelled).map Labelled.bytes)).2
    (sent = (flight.map Message.labelled).map Labelled.record_bytes ↔
        machine.Admits begin Separated false (flight.map Message.labelled)) ∧
      (machine.Admits begin Separated false (flight.map Message.labelled) →
        sent.flatten = records flight) :=
  bridge_forwards_records_iff flight flight_output (flight.map Message.labelled)
    List.flatMap_def.symm

/-- Read at once, the same messages are dropped, and cut behind the first letters
    of the marker, the text goes to the server as well. -/
theorem flight_depends_on_cuts :
    DeviceOutput flight ∧ [stream flight].flatten = stream flight ∧
      [(stream flight).take 9, (stream flight).drop 9].flatten = stream flight ∧
      (stream flight).length ≤ 4096 ∧
      (machine.run bridge_read false [(stream flight).bytes]).2.flatten = [] ∧
      (machine.run bridge_read false
          [Labelled.bytes ((stream flight).take 9), Labelled.bytes ((stream flight).drop 9)]).2.flatten =
        records flight ++ ascii "DEBUG: sent" ∧
      records flight = [0x16, 0x03, 0x03, 0x00, 0x01, 0x00] := by
  refine ⟨flight_output, by decide, by decide, by decide, by decide, by decide, by decide⟩

/-- A record byte that is dropped can be made up for by an equal byte of a text
    that is forwarded: here the last record has the content of a text. -/
example :
    (machine.run bridge_read false
      [[0x16], ascii "DEB", ascii "UG: x", ascii "DEBUG: x"]).2.flatten =
        records [.record [0x16], .text (ascii "DEBUG: x"), .record (ascii "DEBUG: x")] := by
  decide

end keychain.bridge
