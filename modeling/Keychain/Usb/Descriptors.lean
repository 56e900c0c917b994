import Keychain.Cmd.Table

namespace keychain.usb

def USBD_LANGID_STRING : UInt16 := 1033
def USBD_MANUFACTURER_STRING : List UInt8 := ascii "TropicSquare"
def USBD_PRODUCT_STRING : List UInt8 := ascii "SPI interface"
def USBD_IDX_MFC_STR : UInt8 := 1
def USBD_IDX_PRODUCT_STR : UInt8 := 2
def USBD_IDX_SERIAL_STR : UInt8 := 3

/-- The bytes of a `u16` as they are stored. -/
def u16_bytes (value : UInt16) : List UInt8 :=
  [value.toUInt8, (value >>> 8).toUInt8]

/-- Eight bits count the characters. -/
def USBD_Desc_GetLen (buf : List UInt8) : UInt8 :=
  UInt8.ofNat buf.length

def USBD_Desc_GetString (desc : List UInt8) : List UInt8 :=
  USBD_Desc_GetLen desc :: desc

/-- The language, the index and the string, as `USBD_Get_String_Framework` stores them. -/
def string_record (index : UInt8) (desc : List UInt8) : List UInt8 :=
  u16_bytes USBD_LANGID_STRING ++ index :: USBD_Desc_GetString desc

/-- `*Length` is `strlen` of the framework, behind which there are zeros. -/
def USBD_Get_String_Framework (serial_number : List UInt8) : List UInt8 :=
  (string_record USBD_IDX_MFC_STR USBD_MANUFACTURER_STRING ++
    string_record USBD_IDX_PRODUCT_STR USBD_PRODUCT_STRING ++
    string_record USBD_IDX_SERIAL_STR serial_number).takeWhile (· ≠ 0)

/-- The framework is an array of the two bytes of the language, and `*Length` is `strlen` of
    it, which goes on in what is stored behind the array. -/
def USBD_Get_Language_Id_Framework (behind : List UInt8) : List UInt8 :=
  (u16_bytes USBD_LANGID_STRING ++ behind).takeWhile (· ≠ 0)

/-- `USBD_CompositeClassTypeDef` with the one class that has a case in the switch. -/
inductive ClassType where
  | CLASS_TYPE_NONE
  | CLASS_TYPE_CDC_ACM
  deriving DecidableEq

/-- `USBD_EPTypeDef` of an endpoint that is used. -/
structure USBD_EPTypeDef where
  add : UInt8
  type : UInt8
  size : UInt16

/-- `USBD_CompositeElementTypeDef`. -/
structure Element where
  ClassType : ClassType
  Ifs : List UInt8
  Eps : List USBD_EPTypeDef

/-- The configuration descriptor without its constants, and what is stored behind it. -/
structure USBD_ConfigDescTypedef where
  wDescriptorLength : UInt16
  bNumInterfaces : UInt8
  behind : List UInt8

/-- `USBD_DevClassHandleTypeDef`. An element of the class list is there if it is active. -/
structure USBD_DevClassHandleTypeDef where
  high_speed : Bool
  classId : Nat
  NumClasses : Nat
  tclasslist : List Element
  conf : Option USBD_ConfigDescTypedef

def USBD_MAX_SUPPORTED_CLASS : Nat := 3

def USBD_EP_TYPE_BULK : UInt8 := 2
def USBD_EP_TYPE_INTR : UInt8 := 3
def USBD_CDCACM_EPOUT_ADDR : UInt8 := 0x01
def USBD_CDCACM_EPIN_ADDR : UInt8 := 0x81
def USBD_CDCACM_EPINCMD_ADDR : UInt8 := 0x82

def USBD_ConfigDescTypedef.bytes (c : USBD_ConfigDescTypedef) : List UInt8 :=
  [9, 0x02] ++ u16_bytes c.wDescriptorLength ++ [c.bNumInterfaces, 1, 0, 0xC0, 0] ++ c.behind

/-- `__USBD_FRAMEWORK_SET_IF` -/
def USBD_FRAMEWORK_SET_IF (ifnum alt eps cls subclass protocol istring : UInt8) : List UInt8 :=
  [9, 0x04, ifnum, alt, eps, cls, subclass, protocol, istring]

/-- `__USBD_FRAMEWORK_SET_EP` -/
def USBD_FRAMEWORK_SET_EP (high_speed : Bool) (epadd eptype : UInt8) (epsize : UInt16)
    (HSinterval FSinterval : UInt8) : List UInt8 :=
  [7, 0x05, epadd, eptype] ++ u16_bytes epsize ++ [if high_speed then HSinterval else FSinterval]

def USBD_FrameWork_FindFreeIFNbr (tclasslist : List Element) : UInt8 :=
  UInt8.ofNat (tclasslist.foldl (fun count element => count + element.Ifs.length) 0)

/-- The descriptors of an interface association, two interfaces, the class and three
    endpoints. -/
def USBD_FrameWork_CDCDesc (high_speed : Bool) (element : Element) (conf : USBD_ConfigDescTypedef) :
    USBD_ConfigDescTypedef :=
  let first := element.Ifs.getD 0 0
  let second := element.Ifs.getD 1 0
  let ep (idx : Nat) := element.Eps.getD idx ⟨0, 0, 0⟩
  let behind := conf.behind ++
    [8, 0x0B, first, 2, 0x02, 0x02, 0x01, 0] ++
    USBD_FRAMEWORK_SET_IF first 0 1 0x02 0x02 0x01 0 ++
    [0x05, 0x24, 0x00] ++ u16_bytes 0x0110 ++
    [0x05, 0x24, 0x01, 0x00, second] ++
    [0x04, 0x24, 0x02, 0x02] ++
    [0x05, 0x24, 0x06, first, second] ++
    USBD_FRAMEWORK_SET_EP high_speed (ep 2).add USBD_EP_TYPE_INTR (ep 2).size 5 5 ++
    USBD_FRAMEWORK_SET_IF second 0 2 0x0A 0 0 0 ++
    USBD_FRAMEWORK_SET_EP high_speed (ep 0).add USBD_EP_TYPE_BULK (ep 0).size 0 0 ++
    USBD_FRAMEWORK_SET_EP high_speed (ep 1).add USBD_EP_TYPE_BULK (ep 1).size 0 0
  { wDescriptorLength := UInt16.ofNat (9 + behind.length)
    bNumInterfaces := conf.bNumInterfaces + 2
    behind }

/-- The endpoints are assigned in the order of the calls of `USBD_FrameWork_AssignEp`. -/
def USBD_FrameWork_AddToConfDesc (pdev : USBD_DevClassHandleTypeDef) (ClassType : ClassType)
    (high_speed : Bool) : USBD_DevClassHandleTypeDef :=
  let pdev := { pdev with high_speed }
  let conf :=
    if pdev.classId = 0 then ⟨0, 0, []⟩ else pdev.conf.getD ⟨0, 0, []⟩
  match ClassType with
  | .CLASS_TYPE_NONE => { pdev with tclasslist := pdev.tclasslist ++ [⟨ClassType, [], []⟩], conf }
  | .CLASS_TYPE_CDC_ACM =>
    let interface := USBD_FrameWork_FindFreeIFNbr (pdev.tclasslist.take pdev.NumClasses)
    let mps : UInt16 := if high_speed then 512 else 64
    let element : Element :=
      { ClassType
        Ifs := [interface, interface + 1]
        Eps := [⟨USBD_CDCACM_EPOUT_ADDR, USBD_EP_TYPE_BULK, mps⟩,
          ⟨USBD_CDCACM_EPIN_ADDR, USBD_EP_TYPE_BULK, mps⟩,
          ⟨USBD_CDCACM_EPINCMD_ADDR, USBD_EP_TYPE_INTR, 8⟩] }
    { pdev with
      tclasslist := pdev.tclasslist ++ [element]
      conf := some (USBD_FrameWork_CDCDesc high_speed element conf) }

/-- One turn of the loop of `USBD_Device_Framework_Builder`, with `USBD_FrameWork_AddClass`. -/
def add_class (high_speed : Bool) (pdev : USBD_DevClassHandleTypeDef) (instance_type : ClassType) :
    USBD_DevClassHandleTypeDef :=
  if pdev.classId < USBD_MAX_SUPPORTED_CLASS ∧ pdev.NumClasses < USBD_MAX_SUPPORTED_CLASS ∧
      instance_type ≠ .CLASS_TYPE_NONE then
    let pdev := USBD_FrameWork_AddToConfDesc pdev instance_type high_speed
    { pdev with classId := pdev.classId + 1, NumClasses := pdev.NumClasses + 1 }
  else pdev

/-- The device descriptor, the qualifier at high speed, and the configuration. -/
def USBD_Device_Framework_Builder (UserClassInstance : List ClassType) (high_speed : Bool) : List UInt8 :=
  let pdev := (UserClassInstance.take USBD_MAX_SUPPORTED_CLASS).foldl (add_class high_speed)
    { high_speed := false, classId := 0, NumClasses := 0, tclasslist := [], conf := none }
  let device_class : List UInt8 :=
    if pdev.NumClasses > 1 then [0xEF, 0x02, 0x01]
    else if UserClassInstance.head? = some .CLASS_TYPE_CDC_ACM then [0x02, 0x02, 0x00]
    else [0x00, 0x00, 0x00]
  [18, 0x01] ++ u16_bytes 0x0200 ++ device_class ++ [64] ++ u16_bytes 1155 ++ u16_bytes 22336 ++
    u16_bytes 0x0200 ++ [USBD_IDX_MFC_STR, USBD_IDX_PRODUCT_STR, USBD_IDX_SERIAL_STR, 1] ++
    (if high_speed then [10, 0x06] ++ u16_bytes 0x0200 ++ [0, 0, 0, 0x40, 1, 0] else []) ++
    (pdev.conf.map USBD_ConfigDescTypedef.bytes).getD []

/-- `UserClassInstance`, whose other cells are `CLASS_TYPE_NONE`. -/
def UserClassInstance : List ClassType :=
  .CLASS_TYPE_CDC_ACM :: List.replicate 10 .CLASS_TYPE_NONE

def USBD_Get_Device_Framework_Speed (high_speed : Bool) : List UInt8 :=
  USBD_Device_Framework_Builder UserClassInstance high_speed

end keychain.usb
