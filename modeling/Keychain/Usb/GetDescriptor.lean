import Keychain.Library.Record
import Keychain.Usb.Descriptors
import Mathlib.Data.List.GetD
import Mathlib.Data.List.TakeWhile

namespace keychain.usb

/-- What `ux_device_stack_initialize` is given. The device runs at full speed. -/
structure Frameworks where
  device : List UInt8
  string : List UInt8
  language_id : List UInt8

def UX_SLAVE_REQUEST_CONTROL_MAX_LENGTH : Nat := 256

/-- The packet of the setup stage. -/
structure Setup where
  bmRequestType : UInt8
  bRequest : UInt8
  wValue : UInt16
  wIndex : UInt16
  wLength : UInt16
  deriving DecidableEq

/-- Bytes are given to `_ux_device_stack_transfer_request`, with the length that the host has
    asked for; or the endpoint is stalled at once, which may count as a success; or there is an
    error and nothing else. -/
inductive Reply where
  | transfer (data : List UInt8)
  | stall (success : Bool)
  | error
  deriving DecidableEq

def _ux_utility_short_get (bytes : List UInt8) : Nat :=
  (bytes.getD 0 0).toNat + 256 * (bytes.getD 1 0).toNat

/-- `*device_framework` -/
def descriptor_length (bytes : List UInt8) : Nat :=
  (bytes.getD 0 0).toNat

/-- `*(device_framework + 1) == descriptor_type` -/
def has_type (descriptor_type : Nat) (bytes : List UInt8) : Bool :=
  decide ((bytes.getD 1 0).toNat = descriptor_type)

/-- The loop over the device framework. -/
def device_framework_from (framework : List UInt8) (descriptor_type descriptor_index : Nat) :
    Option (Option (List UInt8)) :=
  record.walk descriptor_length (has_type descriptor_type) (framework.length + 1) descriptor_index framework

/-- `*(string_framework + 3) + 4` -/
def string_length (bytes : List UInt8) : Nat :=
  (bytes.getD 3 0).toNat + 4

def is_string (request_index descriptor_index : Nat) (bytes : List UInt8) : Bool :=
  decide (_ux_utility_short_get bytes = request_index ∧ (bytes.getD 2 0).toNat = descriptor_index)

/-- The loop over the string framework. -/
def string_framework_from (framework : List UInt8) (request_index descriptor_index : Nat) :
    Option (Option (List UInt8)) :=
  record.walk string_length (is_string request_index descriptor_index) (framework.length + 1) 0 framework

/-- The cases of the device, the qualifier and the OTG descriptor. -/
def send_device (fw : Frameworks) (descriptor_type host_length : Nat) : Option Reply :=
  let length :=
    if descriptor_type = 1 then min host_length 18
    else if descriptor_type = 6 then min host_length 10
    else min host_length 5
  (device_framework_from fw.device descriptor_type 0).map fun
    | some found => .transfer (found.take length)
    | none => .error

/-- The cases of a configuration, also at the other speed, and of the BOS descriptor. The
    descriptor with all that belongs to it is copied, and the type written over its own. -/
def send_configuration (fw : Frameworks) (descriptor_type descriptor_index host_length : Nat) :
    Option Reply :=
  let found :=
    if descriptor_type = 15 then device_framework_from fw.device 15 0
    else device_framework_from fw.device 2 descriptor_index
  found.map fun
    | some found =>
      let target_descriptor_length := _ux_utility_short_get (found.drop 2)
      let length :=
        if target_descriptor_length < host_length then target_descriptor_length else host_length
      if length > UX_SLAVE_REQUEST_CONTROL_MAX_LENGTH then .stall true
      else .transfer ((found.take length).set 1 (UInt8.ofNat descriptor_type))
    | none => .error

/-- The case of a string descriptor. The string with index 0 is the list of the languages. -/
def send_string (fw : Frameworks) (descriptor_index request_index host_length : Nat) : Option Reply :=
  if descriptor_index = 0 then
    let length := fw.language_id.length + 2
    if length > UX_SLAVE_REQUEST_CONTROL_MAX_LENGTH then some (.stall true)
    else some (.transfer ((UInt8.ofNat length :: 3 :: fw.language_id).take (min host_length length)))
  else
    (string_framework_from fw.string request_index descriptor_index).map fun
      | some found =>
        let count := (found.getD 3 0).toNat
        let length := count * 2 + 2
        if length > UX_SLAVE_REQUEST_CONTROL_MAX_LENGTH then .stall true
        else .transfer ((UInt8.ofNat length :: 3 ::
          ((found.drop 4).take count).flatMap fun ch => [ch, 0]).take (min host_length length))
      | none => .stall false

/-- No reply at all stands for a loop that does not end. -/
def _ux_device_stack_descriptor_send (fw : Frameworks) (request_value request_index host_length : Nat) :
    Option Reply :=
  let descriptor_index := request_value % 256
  let descriptor_type := request_value / 256
  if descriptor_type = 1 ∨ descriptor_type = 6 ∨ descriptor_type = 9 then
    send_device fw descriptor_type host_length
  else if descriptor_type = 15 ∨ descriptor_type = 7 ∨ descriptor_type = 2 then
    send_configuration fw descriptor_type descriptor_index host_length
  else if descriptor_type = 3 then send_string fw descriptor_index request_index host_length
  else some (.stall false)

/-- What `_ux_device_stack_control_request_process` does with `UX_GET_DESCRIPTOR`. Types of
    descriptors with a bit of `UX_REQUEST_TYPE` are for the class, which knows no such request. -/
def process_get_descriptor (fw : Frameworks) (setup : Setup) : Option Reply :=
  if (setup.wValue >>> 8) &&& 0x60 ≠ 0 then some .error
  else _ux_device_stack_descriptor_send fw setup.wValue.toNat setup.wIndex.toNat setup.wLength.toNat

/-- The frameworks of `_usb_cdc_init`, with what is stored behind the array of the language. -/
def _usb_cdc_init (b : cmd.Board) (behind : List UInt8) : Frameworks where
  device := USBD_Get_Device_Framework_Speed false
  string := USBD_Get_String_Framework (cmd.ux_device_sn_text b)
  language_id := USBD_Get_Language_Id_Framework behind

/-- A string descriptor: its size, its type, and the text in two bytes a character. -/
def string_descriptor (text : List UInt8) : List UInt8 :=
  UInt8.ofNat (text.length * 2 + 2) :: 3 :: text.flatMap fun ch => [ch, 0]

def device_descriptor : List UInt8 :=
  (USBD_Get_Device_Framework_Speed false).take 18

/-- The configuration descriptor with the descriptors that belong to it. -/
def configuration : List UInt8 :=
  (USBD_Get_Device_Framework_Speed false).drop 18

/-- The text that an index stands for. -/
def text_of (serial_number : List UInt8) (index : Nat) : Option (List UInt8) :=
  if index = 1 then some USBD_MANUFACTURER_STRING
  else if index = 2 then some USBD_PRODUCT_STRING
  else if index = 3 then some serial_number
  else none

/-- The descriptor that a request is for. -/
def descriptor (serial_number language_id : List UInt8) (setup : Setup) : Option (List UInt8) :=
  let type := setup.wValue.toNat / 256
  let index := setup.wValue.toNat % 256
  if type = 1 then some device_descriptor
  else if type = 2 ∨ type = 7 then
    if index = 0 then some (configuration.set 1 (UInt8.ofNat type)) else none
  else if type = 3 then
    if index = 0 then
      if language_id.length + 2 ≤ UX_SLAVE_REQUEST_CONTROL_MAX_LENGTH then
        some (UInt8.ofNat (language_id.length + 2) :: 3 :: language_id)
      else none
    else if setup.wIndex.toNat = 1033 then (text_of serial_number index).map string_descriptor
    else none
  else none

/-- What is sent, if anything is. -/
def Reply.data : Reply → Option (List UInt8)
  | .transfer data => some data
  | _ => none

/-- The device framework descriptor by descriptor. -/
def device_records : List (List UInt8) :=
  device_descriptor ::
    [configuration.take 9, (configuration.drop 9).take 8, (configuration.drop 17).take 9,
      (configuration.drop 26).take 5, (configuration.drop 31).take 5, (configuration.drop 36).take 4,
      (configuration.drop 40).take 5, (configuration.drop 45).take 7, (configuration.drop 52).take 9,
      (configuration.drop 61).take 7, (configuration.drop 68).take 7]

/-- The string framework string by string. -/
def string_records (serial_number : List UInt8) : List (List UInt8) :=
  [string_record USBD_IDX_MFC_STR USBD_MANUFACTURER_STRING,
    string_record USBD_IDX_PRODUCT_STR USBD_PRODUCT_STRING,
    string_record USBD_IDX_SERIAL_STR serial_number]

theorem device_records_flatten : device_records.flatten = USBD_Get_Device_Framework_Speed false := by
  decide

/-- A descriptor starts with its size and its type. -/
theorem device_record_framed (descriptor_type : Nat) {stored : List UInt8} (h : stored ∈ device_records) :
    record.Framed descriptor_length (has_type descriptor_type) stored := by
  have hall : ∀ stored ∈ device_records, 1 < stored.length ∧ descriptor_length stored = stored.length := by
    decide
  obtain ⟨hlength, hsize⟩ := hall stored h
  refine ⟨fun hnil => ?_, fun rest => ?_, fun rest => ?_⟩
  · rw [hnil] at hlength
    exact absurd hlength (Nat.not_lt_zero 1)
  · rw [descriptor_length, List.getD_append _ _ _ _ (Nat.zero_lt_of_lt hlength)]
    exact hsize
  · rw [has_type, has_type, List.getD_append _ _ _ _ hlength]

theorem device_framework_from_eq (descriptor_type n : Nat) :
    device_framework_from (USBD_Get_Device_Framework_Speed false) descriptor_type n =
      some ((record.from_nth (has_type descriptor_type) n device_records).map List.flatten) := by
  have hcount : device_records.length < device_records.flatten.length + 1 := by decide
  rw [device_framework_from, ← device_records_flatten]
  exact record.walk_flatten (fun _ => device_record_framed descriptor_type) hcount n

/-- There is one device descriptor, and one configuration. -/
theorem device_framework_from_device :
    device_framework_from (USBD_Get_Device_Framework_Speed false) 1 0 =
      some (some (USBD_Get_Device_Framework_Speed false)) := by
  rw [device_framework_from_eq, ← device_records_flatten]
  rfl

theorem device_framework_from_configuration (n : Nat) :
    device_framework_from (USBD_Get_Device_Framework_Speed false) 2 n =
      some (if n = 0 then some configuration else none) := by
  have hrest : ∀ stored ∈ device_records.drop 2, has_type 2 stored = false := by
    decide
  have hflatten : (device_records.drop 1).flatten = configuration := by decide
  rw [device_framework_from_eq]
  change some ((if n = 0 then some (device_records.drop 1)
    else record.from_nth _ (n - 1) (device_records.drop 2)).map List.flatten) = _
  split_ifs
  · rw [Option.map_some, hflatten]
  · rw [record.from_nth_eq_none hrest]
    rfl

theorem device_framework_from_other {descriptor_type : Nat}
    (h : descriptor_type = 6 ∨ descriptor_type = 9 ∨ descriptor_type = 15) :
    device_framework_from (USBD_Get_Device_Framework_Speed false) descriptor_type 0 = some none := by
  have hnone : ∀ descriptor_type ∈ [6, 9, 15], ∀ stored ∈ device_records,
      has_type descriptor_type stored = false := by
    decide
  rw [device_framework_from_eq, record.from_nth_eq_none (hnone descriptor_type (by simpa using h))]
  rfl

section

variable {serial_number : List UInt8}

theorem string_record_framed {index : UInt8} {text : List UInt8} (h : text.length < 256)
    (request_index descriptor_index : Nat) :
    record.Framed string_length (is_string request_index descriptor_index)
      (string_record index text) := by
  refine ⟨List.cons_ne_nil _ _, fun rest => ?_, fun rest => rfl⟩
  change (UInt8.ofNat text.length).toNat + 4 = text.length + 4
  rw [UInt8.toNat_ofNat', Nat.mod_eq_of_lt h]

/-- No byte of a string framework is zero. -/
theorem USBD_Get_String_Framework_eq (hpos : 0 < serial_number.length) (hlt : serial_number.length < 256)
    (hnul : 0 ∉ serial_number) :
    USBD_Get_String_Framework serial_number = (string_records serial_number).flatten := by
  have hconst : 0 ∉ string_record USBD_IDX_MFC_STR USBD_MANUFACTURER_STRING ∧
      0 ∉ string_record USBD_IDX_PRODUCT_STR USBD_PRODUCT_STRING := by
    decide
  have hlength : UInt8.ofNat serial_number.length ≠ 0 := by
    intro hzero
    have hnat := congrArg UInt8.toNat hzero
    rw [UInt8.toNat_ofNat', Nat.mod_eq_of_lt hlt] at hnat
    exact absurd hnat (Nat.ne_of_gt hpos)
  have hserial : 0 ∉ string_record USBD_IDX_SERIAL_STR serial_number := by
    have hhead : 0 ∉ u16_bytes USBD_LANGID_STRING ++ [USBD_IDX_SERIAL_STR] := by decide
    intro hmem
    have hsplit : (0 : UInt8) ∈ (u16_bytes USBD_LANGID_STRING ++ [USBD_IDX_SERIAL_STR]) ++
        UInt8.ofNat serial_number.length :: serial_number := hmem
    obtain hfront | hback := List.mem_append.mp hsplit
    · exact hhead hfront
    · obtain hzero | htext := List.mem_cons.mp hback
      · exact hlength hzero.symm
      · exact hnul htext
  have hflatten : (string_records serial_number).flatten =
      string_record USBD_IDX_MFC_STR USBD_MANUFACTURER_STRING ++
        string_record USBD_IDX_PRODUCT_STR USBD_PRODUCT_STRING ++
        string_record USBD_IDX_SERIAL_STR serial_number := by
    simp only [string_records, List.flatten_cons, List.flatten_nil, List.append_nil, List.append_assoc]
  rw [USBD_Get_String_Framework, hflatten]
  refine List.takeWhile_eq_self_iff.mpr fun byte hbyte => decide_eq_true ?_
  rintro rfl
  obtain hfront | hback := List.mem_append.mp hbyte
  · obtain hfirst | hsecond := List.mem_append.mp hfront
    · exact hconst.1 hfirst
    · exact hconst.2 hsecond
  · exact hserial hback

/-- The string of the framework that a request finds, and what is stored behind it. -/
theorem string_framework_from_eq (hpos : 0 < serial_number.length) (hlt : serial_number.length < 256)
    (hnul : 0 ∉ serial_number) (request_index descriptor_index : Nat) :
    ∃ rest : List UInt8, string_framework_from (USBD_Get_String_Framework serial_number) request_index
        descriptor_index =
      some (if request_index = 1033 then
        (text_of serial_number descriptor_index).map fun text =>
          string_record (UInt8.ofNat descriptor_index) text ++ rest
      else none) := by
  have hframed : ∀ stored ∈ string_records serial_number,
      record.Framed string_length (is_string request_index descriptor_index) stored := by
    intro stored hstored
    simp only [string_records, List.mem_cons, List.not_mem_nil, or_false] at hstored
    obtain rfl | rfl | rfl := hstored
    · exact string_record_framed (by decide) request_index descriptor_index
    · exact string_record_framed (by decide) request_index descriptor_index
    · exact string_record_framed hlt request_index descriptor_index
  have hcount : (string_records serial_number).length < (string_records serial_number).flatten.length + 1 := by
    have hfirst : (string_records serial_number).flatten.length =
        16 + ((string_records serial_number).drop 1).flatten.length := List.length_append
    rw [hfirst]
    exact Nat.lt_of_lt_of_le (by decide : 3 < 16) (by omega)
  have his : ∀ (index : UInt8) (text : List UInt8),
      is_string request_index descriptor_index (string_record index text) =
        decide (1033 = request_index ∧ index.toNat = descriptor_index) := fun _ _ => rfl
  rw [string_framework_from, USBD_Get_String_Framework_eq hpos hlt hnul,
    record.walk_flatten hframed hcount 0]
  by_cases hlang : request_index = 1033
  · subst hlang
    simp only [string_records, record.from_nth, his, text_of, true_and, if_true]
    by_cases hfirst : descriptor_index = 1
    · subst hfirst
      exact ⟨_, rfl⟩
    by_cases hsecond : descriptor_index = 2
    · subst hsecond
      exact ⟨_, rfl⟩
    by_cases hthird : descriptor_index = 3
    · subst hthird
      exact ⟨_, rfl⟩
    · refine ⟨[], ?_⟩
      rw [if_pos, if_pos, if_pos, if_neg hfirst, if_neg hsecond, if_neg hthird]
      · rfl
      · exact decide_eq_false (Ne.symm hthird)
      · exact decide_eq_false (Ne.symm hsecond)
      · exact decide_eq_false (Ne.symm hfirst)
  · have hnone : ∀ stored ∈ string_records serial_number,
        is_string request_index descriptor_index stored = false := by
      intro stored hstored
      simp only [string_records, List.mem_cons, List.not_mem_nil, or_false] at hstored
      obtain rfl | rfl | rfl := hstored
      all_goals exact decide_eq_false fun h => hlang h.1.symm
    refine ⟨[], ?_⟩
    rw [record.from_nth_eq_none hnone, if_neg hlang]
    rfl

/-- The host gets no more than there is. -/
theorem take_min_length {data : List UInt8} {length : Nat} (h : data.length = length) (host_length : Nat) :
    data.take (min host_length length) = data.take host_length := by
  rw [← h, ← List.take_eq_take_min]

theorem length_string_descriptor (text : List UInt8) :
    (string_descriptor text).length = text.length * 2 + 2 := by
  have hchars : (text.flatMap fun ch => [ch, 0]).length = text.length * 2 := by
    induction text with
    | nil => rfl
    | cons ch text ih =>
      have hcons : (ch :: text).length * 2 = 2 + text.length * 2 := by
        rw [List.length_cons]
        omega
      rw [List.flatMap_cons, List.length_append, ih, hcons]
      rfl
  rw [string_descriptor, List.length_cons, List.length_cons, hchars]

theorem length_text_of (hlt : serial_number.length < 127) {index : Nat} {text : List UInt8}
    (h : text_of serial_number index = some text) : text.length < 127 := by
  unfold text_of at h
  split_ifs at h
  all_goals cases h
  · decide
  · decide
  · exact hlt

/-- A text that is not too long is sent as its descriptor. -/
theorem send_string_eq (fw : Frameworks) (hfw : fw.string = USBD_Get_String_Framework serial_number)
    (hpos : 0 < serial_number.length) (hlt : serial_number.length < 127) (hnul : 0 ∉ serial_number)
    {descriptor_index : Nat} (hindex : descriptor_index ≠ 0) (request_index host_length : Nat) :
    (send_string fw descriptor_index request_index host_length).map Reply.data =
      some ((if request_index = 1033 then
        (text_of serial_number descriptor_index).map string_descriptor else none).map
          (List.take host_length)) := by
  obtain ⟨rest, hfrom⟩ := string_framework_from_eq hpos (by omega) hnul request_index descriptor_index
  rw [send_string, if_neg hindex, hfw, hfrom]
  by_cases hlang : request_index = 1033
  · rw [if_pos hlang, if_pos hlang]
    cases htext : text_of serial_number descriptor_index with
    | none => rfl
    | some text =>
      have hshort := length_text_of hlt htext
      have hcount : ((string_record (UInt8.ofNat descriptor_index) text ++ rest).getD 3 0).toNat =
          text.length := by
        change (UInt8.ofNat text.length).toNat = text.length
        rw [UInt8.toNat_ofNat', Nat.mod_eq_of_lt (by omega)]
      have hchars : ((string_record (UInt8.ofNat descriptor_index) text ++ rest).drop 4).take
          text.length = text := List.take_left
      simp only [Option.map_some, hcount, hchars]
      rw [if_neg (by rw [UX_SLAVE_REQUEST_CONTROL_MAX_LENGTH]; omega)]
      have htake := take_min_length (length_string_descriptor text) host_length
      exact congrArg (fun data => some (some data)) htake
  · rw [if_neg hlang, if_neg hlang]
    rfl

theorem send_device_eq {fw : Frameworks} (hfw : fw.device = USBD_Get_Device_Framework_Speed false)
    {descriptor_type : Nat} (h : descriptor_type = 1 ∨ descriptor_type = 6 ∨ descriptor_type = 9)
    (host_length : Nat) :
    (send_device fw descriptor_type host_length).map Reply.data =
      some ((if descriptor_type = 1 then some device_descriptor else none).map (List.take host_length)) := by
  rw [send_device, hfw]
  by_cases hdevice : descriptor_type = 1
  · subst hdevice
    rw [device_framework_from_device]
    exact congrArg (fun data => some (some data)) List.take_take.symm
  · rw [device_framework_from_other (by omega), if_neg hdevice, if_neg hdevice]
    rfl

theorem send_configuration_eq {fw : Frameworks} (hfw : fw.device = USBD_Get_Device_Framework_Speed false)
    (descriptor_type descriptor_index host_length : Nat) :
    (send_configuration fw descriptor_type descriptor_index host_length).map Reply.data =
      some ((if descriptor_type ≠ 15 ∧ descriptor_index = 0 then
        some (configuration.set 1 (UInt8.ofNat descriptor_type)) else none).map
          (List.take host_length)) := by
  rw [send_configuration, hfw]
  by_cases hbos : descriptor_type = 15
  · rw [if_pos hbos, device_framework_from_other (.inr (.inr rfl)), if_neg fun h => h.1 hbos]
    rfl
  · rw [if_neg hbos, device_framework_from_configuration]
    by_cases hindex : descriptor_index = 0
    · have htotal : _ux_utility_short_get (configuration.drop 2) = configuration.length := by decide
      have hlength : (if configuration.length < host_length then configuration.length else host_length) =
          min host_length configuration.length := by
        split_ifs <;> omega
      have hshort : ¬ min host_length configuration.length > UX_SLAVE_REQUEST_CONTROL_MAX_LENGTH := by
        have hsize : configuration.length = 75 := by decide
        rw [UX_SLAVE_REQUEST_CONTROL_MAX_LENGTH]
        omega
      simp only [hindex, if_true, Option.map_some, htotal, hlength, if_neg hshort]
      rw [if_pos ⟨hbos, trivial⟩, Reply.data, Option.map_some, List.take_set, take_min_length rfl]
    · rw [if_neg hindex, if_neg fun h => hindex h.2]
      rfl

theorem send_languages_eq (fw : Frameworks) (request_index host_length : Nat) :
    (send_string fw 0 request_index host_length).map Reply.data =
      some ((if fw.language_id.length + 2 ≤ UX_SLAVE_REQUEST_CONTROL_MAX_LENGTH then
        some (UInt8.ofNat (fw.language_id.length + 2) :: 3 :: fw.language_id) else none).map
          (List.take host_length)) := by
  rw [send_string, if_pos rfl]
  by_cases hshort : fw.language_id.length + 2 ≤ UX_SLAVE_REQUEST_CONTROL_MAX_LENGTH
  · have hlength : (UInt8.ofNat (fw.language_id.length + 2) :: 3 :: fw.language_id).length =
        fw.language_id.length + 2 := rfl
    dsimp only
    rw [if_neg (Nat.not_lt.mpr hshort), if_pos hshort, take_min_length hlength]
    rfl
  · dsimp only
    rw [if_pos (Nat.not_le.mp hshort), if_neg hshort]
    rfl

end

theorem length_hex_digits (letters : List UInt8) (width n : Nat) :
    (cmd.hex_digits letters width n).length = width := by
  induction width generalizing n with
  | zero => rfl
  | succ width ih => rw [cmd.hex_digits, List.length_append, ih, List.length_singleton]

theorem zero_notMem_hex_digits (width n : Nat) : 0 ∉ cmd.hex_digits (ascii "abcdef") width n := by
  have hdigit : ∀ digit < 16, cmd.hex_digit (ascii "abcdef") digit ≠ 0 := by decide
  induction width generalizing n with
  | zero => exact List.not_mem_nil
  | succ width ih =>
    rw [cmd.hex_digits, List.mem_append, List.mem_singleton, not_or]
    exact ⟨ih _, (hdigit _ (Nat.mod_lt _ (by decide))).symm⟩

theorem length_ux_device_sn_text (b : cmd.Board) : (cmd.ux_device_sn_text b).length = 12 := by
  rw [cmd.ux_device_sn_text, List.length_append, length_hex_digits, length_hex_digits]

theorem zero_notMem_ux_device_sn_text (b : cmd.Board) : 0 ∉ cmd.ux_device_sn_text b := by
  rw [cmd.ux_device_sn_text, List.mem_append, not_or]
  exact ⟨zero_notMem_hex_digits _ _, zero_notMem_hex_digits _ _⟩

/-- A type that belongs to the class is none of those that the stack has descriptors of. -/
theorem type_ne_of_class {wValue : UInt16} (h : (wValue >>> 8) &&& 0x60 ≠ 0) :
    wValue.toNat / 256 ≠ 1 ∧ wValue.toNat / 256 ≠ 2 ∧ wValue.toNat / 256 ≠ 3 ∧ wValue.toNat / 256 ≠ 7 := by
  have htype : (wValue >>> 8).toNat = wValue.toNat / 256 := by
    rw [UInt16.toNat_shiftRight]
    exact Nat.shiftRight_eq_div_pow _ 8
  have hother : ∀ type : UInt16, type &&& 0x60 = 0 → wValue.toNat / 256 ≠ type.toNat := by
    intro type hzero heq
    rw [← htype] at heq
    exact h (UInt16.toNat.inj heq ▸ hzero)
  exact ⟨hother 1 (by decide), hother 2 (by decide), hother 3 (by decide), hother 7 (by decide)⟩

/-- Every request is answered, with as much of its descriptor as the host has asked for if there
    is one. -/
theorem control_request_reply (b : cmd.Board) (behind : List UInt8) (setup : Setup) :
    (process_get_descriptor (_usb_cdc_init b behind) setup).map Reply.data =
      some ((descriptor (cmd.ux_device_sn_text b) (USBD_Get_Language_Id_Framework behind) setup).map
        (List.take setup.wLength.toNat)) := by
  have hlength := length_ux_device_sn_text b
  rw [process_get_descriptor, descriptor]
  by_cases hclass : (setup.wValue >>> 8) &&& 0x60 ≠ 0
  · obtain ⟨h1, h2, h3, h7⟩ := type_ne_of_class hclass
    rw [if_pos hclass, if_neg h1, if_neg (by omega), if_neg h3]
    rfl
  · rw [if_neg hclass, _ux_device_stack_descriptor_send]
    generalize setup.wValue.toNat / 256 = type
    generalize setup.wValue.toNat % 256 = index
    by_cases hdevice : type = 1 ∨ type = 6 ∨ type = 9
    · rw [if_pos hdevice, send_device_eq rfl hdevice]
      by_cases hone : type = 1
      · rw [if_pos hone, if_pos hone]
      · have htwo : ¬ (type = 2 ∨ type = 7) := by omega
        have hthree : type ≠ 3 := by omega
        rw [if_neg hone, if_neg hone, if_neg htwo, if_neg hthree]
    · rw [if_neg hdevice, if_neg fun hone => hdevice (.inl hone)]
      by_cases hconfiguration : type = 15 ∨ type = 7 ∨ type = 2
      · rw [if_pos hconfiguration, send_configuration_eq rfl]
        by_cases hbos : type = 15
        · have htwo : ¬ (type = 2 ∨ type = 7) := by omega
          have hthree : type ≠ 3 := by omega
          rw [if_neg htwo, if_neg hthree, if_neg fun h => h.1 hbos]
        · have htwo : type = 2 ∨ type = 7 := by omega
          rw [if_pos htwo]
          by_cases hindex : index = 0
          · rw [if_pos ⟨hbos, hindex⟩, if_pos hindex]
          · rw [if_neg fun h => hindex h.2, if_neg hindex]
      · have htwo : ¬ (type = 2 ∨ type = 7) := by omega
        rw [if_neg hconfiguration, if_neg htwo]
        by_cases hstring : type = 3
        · rw [if_pos hstring, if_pos hstring]
          by_cases hindex : index = 0
          · rw [if_pos hindex, hindex]
            exact send_languages_eq _ _ _
          · rw [if_neg hindex]
            refine (send_string_eq _ rfl (by omega) (by omega) (zero_notMem_ux_device_sn_text b) hindex
              _ _).trans ?_
            split_ifs <;> rfl
        · rw [if_neg hstring, if_neg hstring]
          rfl

end keychain.usb
