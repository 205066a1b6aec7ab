/-
What `nfb-info -j` prints of a device (`tools/info/info.c`): the items come from the properties of the device tree, and some
properties are printed as they stand, some make the loop over the BARs leave an open section behind.
-/
import NdkSw.Ni.CallParts
import NdkSw.Shared.OptionText

namespace NdkSw.Ni

open Json Shared

/-! ## Device tree -/

/-- A property of a node: its value, and the bytes that stand behind it in the tree. -/
structure FdtProp where
  value : List (BitVec 8)
  behind : List (BitVec 8)

/-- What the device tree tells; an offset that is `none` is a negative one. -/
structure Fdt where
  pathOffset : List Char → Option Nat
  getName : Nat → Option (List Char)
  getprop : Option Nat → List Char → Option FdtProp
  subnodes : Option Nat → List Nat
  compatible : List Char → List Nat
  nodeOffsetByPhandleRef : Nat → List Char → Option Nat

namespace FdtProp

/-- The property read as a string. A character is a byte; the bytes from `0x80` on are parts of longer characters. -/
def text (prop : FdtProp) : List Char :=
  ((prop.value ++ prop.behind).takeWhile (· ≠ 0)).map fun b => Char.ofNat b.toNat

/-- `fdt32_to_cpu` at the property; nothing checks its length. -/
def read32 (prop : FdtProp) : BitVec 32 := BitVec.ofNat 32 (bigEndian ((prop.value ++ prop.behind).take 4))

/-- `fdt64_to_cpu` at the property. -/
def read64 (prop : FdtProp) : U64 := BitVec.ofNat 64 (bigEndian ((prop.value ++ prop.behind).take 8))

end FdtProp

/-- A number as `printf` shows it with so many places: below zero or not, the whole part, the digits behind the point. -/
structure Fixed (places : Nat) where
  negative : Bool
  whole : Nat
  digits : Fin places → Fin 10

/-- A `double`, as it is shown with any number of places. -/
abbrev Double := (places : Nat) → Fixed places

/-- A device: its tree, the counts of its queues and its temperature. -/
structure Device where
  fdt : Fdt
  rxQueueCount : BitVec 32
  rxQueueAvailableCount : BitVec 32
  txQueueCount : BitVec 32
  txQueueAvailableCount : BitVec 32
  temperature : Double

/-! ## Items -/

/-- `enum NI_ITEMS`, less the items of the card list. -/
inductive NiItems where
  | secRoot
  | sec0BoardInfo
  | boardName
  | serialNumber
  | fpgaUniqueId
  | netIfcs
  | listNetIfcs
  | sec1NetIfcs
  | ifcId
  | ifcType
  | temperature
  | sec0Firmware
  | cardName
  | projectName
  | projectVariant
  | projectVersion
  | builtTime
  | builtTimestamp
  | buildTool
  | buildAuthor
  | buildRevision
  | rxQueuesAll
  | rxQueuesEqAv
  | rxQueuesNeqAv
  | txQueuesAll
  | txQueuesEqAv
  | txQueuesNeqAv
  | ethChannels
  | listEthChannels
  | sec1EthChannels
  | ethChannelId
  | ethChannelType
  | sec0System
  | sec1Pciep
  | listPciep
  | pciId
  | pciSlot
  | pciLinkSpeed
  | pciLinkWidth
  | numa
  | listPciBar
  | sec2PciBar
  | barId
  | barSizeStr
  | barSize
  deriving DecidableEq, Repr

/-- `ni_json_k`. -/
def niJsonK (key : String) : NiJsonItem := ⟨some key.toList, 0⟩

/-- `ni_json_n`. -/
def niJsonN : NiJsonItem := ⟨none, 0⟩

/-- `ni_json_e`. -/
def niJsonE : NiJsonItem := ⟨none, 1⟩

namespace NiItems

/-- The part of `ni_items` for JSON. -/
def json : NiItems → NiJsonItem
  | secRoot => niJsonE
  | sec0BoardInfo => niJsonK "board"
  | boardName => niJsonK "board_name"
  | serialNumber => niJsonK "serial_number"
  | fpgaUniqueId => niJsonK "fpga_unique_id"
  | netIfcs => niJsonK "network_interfaces"
  | listNetIfcs => niJsonK "interfaces"
  | sec1NetIfcs => niJsonE
  | ifcId => niJsonK "id"
  | ifcType => niJsonK "type"
  | temperature => ⟨some "temperature".toList, 1 <<< 32⟩
  | sec0Firmware => niJsonK "firmware"
  | cardName => niJsonK "card_name"
  | projectName => niJsonK "project_name"
  | projectVariant => niJsonK "project_variant"
  | projectVersion => niJsonK "project_version"
  | builtTime => niJsonN
  | builtTimestamp => niJsonK "build_time"
  | buildTool => niJsonK "build_tool"
  | buildAuthor => niJsonK "build_author"
  | buildRevision => niJsonK "build_revision"
  | rxQueuesAll => niJsonK "rx_queues"
  | rxQueuesEqAv => niJsonK "rx_queues_available"
  | rxQueuesNeqAv => niJsonK "rx_queues_available"
  | txQueuesAll => niJsonK "tx_queues"
  | txQueuesEqAv => niJsonK "tx_queues_available"
  | txQueuesNeqAv => niJsonK "tx_queues_available"
  | ethChannels => niJsonN
  | listEthChannels => niJsonK "eth_channels"
  | sec1EthChannels => niJsonE
  | ethChannelId => niJsonK "id"
  | ethChannelType => niJsonK "type"
  | sec0System => niJsonK "system"
  | sec1Pciep => niJsonE
  | listPciep => niJsonK "pci"
  | pciId => niJsonK "id"
  | pciSlot => niJsonK "pci_bdf"
  | pciLinkSpeed => niJsonK "pci_link_speed_str"
  | pciLinkWidth => niJsonK "pci_link_width"
  | numa => niJsonK "numa"
  | listPciBar => niJsonK "bar"
  | sec2PciBar => niJsonE
  | barId => niJsonK "id"
  | barSizeStr => niJsonN
  | barSize => niJsonK "size"

def index (item : NiItems) : Int := item.ctorIdx

end NiItems

/-- `ni_get_item_default_json`. -/
def niItems (i : Int) : NiJsonItem := (NiItems.ofNat i.toNat).json

/-! ## Item callbacks -/

/-- `%d`. -/
def decimalText (z : Int) : List Char := (if z < 0 then ['-'] else []) ++ Nat.toDigits 10 z.natAbs

/-- `%.*f`. -/
def Fixed.text {places : Nat} (x : Fixed places) : List Char :=
  (if x.negative then ['-'] else []) ++ Nat.toDigits 10 x.whole ++
    if places = 0 then [] else '.' :: List.ofFn fun i => Nat.digitChar (x.digits i)

/-- `ni_def_print_str_json`: nothing is escaped. -/
def niDefPrintStrJson (val : List Char) (_ : BitVec 8) : List Char := '"' :: (val ++ ['"'])

/-- `ni_def_print_xreg_json`. -/
def niDefPrintXregJson (val : U64) (_ : BitVec 8) : List Char := Nat.toDigits 10 val.toNat

/-- `ni_def_print_double_json`; a negative precision is none, and then there are six places. -/
def niDefPrintDoubleJson (val : Double) (decim : BitVec 8) : List Char :=
  if decim.toInt < 0 then (val 6).text else (val decim.toNat).text

/-- `ni_def_print_int_json`. -/
def niDefPrintIntJson (val : BitVec 32) (_ : BitVec 8) : List Char := decimalText val.toInt

def niSection (item : NiItems) : NiCall := .section item.index

def niEndsection (item : NiItems) : NiCall := .endsection item.index

def niList (item : NiItems) : NiCall := .list item.index

def niEndlist (item : NiItems) : NiCall := .endlist item.index

def niItemStr (item : NiItems) (val : List Char) : NiCall := .item item.index (niDefPrintStrJson val)

def niItemUint64Tx (item : NiItems) (val : U64) : NiCall := .item item.index (niDefPrintXregJson val)

def niItemDouble (item : NiItems) (val : Double) : NiCall := .item item.index (niDefPrintDoubleJson val)

def niItemInt (item : NiItems) (val : BitVec 32) : NiCall := .item item.index (niDefPrintIntJson val)

/-- `ni_fdt_prop_str`. -/
def niFdtPropStr (item : NiItems) (fdt : Fdt) (fdtOffset : Option Nat) (propName : String) : List NiCall :=
  match fdt.getprop fdtOffset propName.toList with
  | none => []
  | some prop => [niItemStr item prop.text]

/-- `ni_fdt_prop_32`. -/
def niFdtProp32 (item : NiItems) (fdt : Fdt) (fdtOffset : Option Nat) (propName : String) : List NiCall :=
  match fdt.getprop fdtOffset propName.toList with
  | none => []
  | some prop => if prop.value.length = 4 then [niItemInt item prop.read32] else []

/-- `ni_fdt_prop_uint64_tx`. -/
def niFdtPropUint64Tx (item : NiItems) (fdt : Fdt) (fdtOffset : Option Nat) (propName : String) : List NiCall :=
  match fdt.getprop fdtOffset propName.toList with
  | none => []
  | some prop => if prop.value.length = 8 then [niItemUint64Tx item prop.read64] else []

/-! ## Endpoints -/

/-- `pci_speed_string`. -/
def pciSpeedString (speed : BitVec 32) : List Char :=
  if speed = 0x18 then "32 GT/s".toList
  else if speed = 0x17 then "16 GT/s".toList
  else if speed = 0x16 then "8 GT/s".toList
  else if speed = 0x15 then "5 GT/s".toList
  else if speed = 0x14 then "2.5 GT/s".toList
  else "Unknown speed".toList

def units : List (List Char) := ["B".toList, "KiB".toList, "MiB".toList, "GiB".toList]

/-- The loop of `sprint_size`, with the units that are left. -/
def sizeUnit : Nat → Nat → U64 → Nat × U64
  | 0, i, size => (i, size)
  | left + 1, i, size => if 1024 ≤ size.toNat then sizeUnit left (i + 1) (size >>> 10) else (i, size)

/-- `sprint_size` to a buffer with so much room; none if it reads behind the units or writes behind the buffer. -/
def sprintSize (room : Nat) (size : U64) : Option (List Char) :=
  let (i, size) := sizeUnit units.length 0 size
  units[i]?.bind fun unit =>
    let text := Nat.toDigits 10 size.toNat ++ ' ' :: unit
    if text.length < room then some text else none

/-- `strtoul` with base 10: white space, a sign, digits, and the largest number for one that is too large. -/
def strtoulDecimal (s : List Char) : U64 :=
  let s := s.dropWhile isBlank
  let number := numberIn 10 (digitsIn 10 (if s.head? = some '-' ∨ s.head? = some '+' then s.tail else s))
  if 2 ^ 64 ≤ number then BitVec.allOnes 64
  else if s.head? = some '-' then -BitVec.ofNat 64 number else BitVec.ofNat 64 number

/-- `dev_id` of the endpoint with that node name. -/
def endpointId (nodeName : Option (List Char)) : BitVec 32 :=
  match nodeName with
  | none => -1
  | some name => if 8 < name.length ∧ name.take 8 = "endpoint".toList then (strtoulDecimal (name.drop 8)).setWidth 32 else -1

/-- What `snprintf` leaves in a buffer. -/
def snprintf (room : Nat) (text : List Char) : List Char := text.take (room - 1)

/-- The node of a BAR. -/
def barNode (fdt : Fdt) (devId : BitVec 32) (bar : Nat) : Option Nat :=
  fdt.pathOffset (snprintf 64
    ("/drivers/mi/PCI".toList ++ decimalText devId.toInt ++ (",BAR".toList ++ Nat.toDigits 10 bar)))

/-- One turn of the loop over the BARs. Without a size of eight bytes the turn ends in the open section. -/
def barCalls (fdt : Fdt) (devId : BitVec 32) (bar : Nat) : Option (List NiCall) :=
  match barNode fdt devId bar with
  | none => some []
  | some node =>
    match fdt.getprop (some node) "mmap_size".toList with
    | none => some [niSection .sec2PciBar]
    | some prop =>
      if prop.value.length ≠ 8 then some [niSection .sec2PciBar]
      else
        let barSize := prop.read64
        (if barSize = 0 then some "unmapped!".toList else sprintSize 64 barSize).map fun text =>
          [niSection .sec2PciBar, niItemInt .barId (BitVec.ofNat 32 bar), niItemStr .barSizeStr text,
            niItemInt .barSize (barSize.setWidth 32), niEndsection .sec2PciBar]

/-- The calls of a loop, turn after turn. -/
def gather {α : Type} (f : α → Option (List NiCall)) : List α → Option (List NiCall)
  | [] => some []
  | x :: l => do
    let calls ← f x
    let rest ← gather f l
    some (calls ++ rest)

/-- `print_endpoint_info`, up to the list of the BARs. -/
def endpointItems (fdt : Fdt) (node : Nat) : List NiCall :=
  niItemInt .pciId (endpointId (fdt.getName node)) ::
    (niFdtPropStr .pciSlot fdt (some node) "pci-slot" ++
      ((fdt.getprop (some node) "pci-speed".toList).toList.map fun prop =>
        niItemStr .pciLinkSpeed (pciSpeedString prop.read32)) ++
      niFdtProp32 .pciLinkWidth fdt (some node) "pcie-link-width" ++ niFdtProp32 .numa fdt (some node) "numa-node")

/-- `print_endpoint_info`. -/
def printEndpointInfo (fdt : Fdt) (node : Nat) : Option (List NiCall) :=
  (gather (barCalls fdt (endpointId (fdt.getName node))) (List.range 6)).map fun bars =>
    endpointItems fdt node ++ niList .listPciBar :: (bars ++ [niEndlist .listPciBar])

/-! ## Board, firmware and system -/

/-- The text of the serial number. -/
def serialNumber (fdt : Fdt) (fdtOffset : Option Nat) : Option (List Char) :=
  let text := (fdt.getprop fdtOffset "serial-number-string".toList).map FdtProp.text
  match fdt.getprop fdtOffset "serial-number".toList with
  | none => text
  | some prop => if prop.value.length = 4 then some (snprintf 64 (decimalText prop.read32.toInt)) else text

/-- `len > 0 ? (const char *) prop : "Unknown"`. -/
def typeText : Option FdtProp → List Char
  | none => "Unknown".toList
  | some prop => if 0 < prop.value.length then prop.text else "Unknown".toList

/-- A section for each node of a list, with its number and its type. -/
def typeSections (sec id type : NiItems) (fdt : Fdt) (offsets : List (Option Nat)) : List NiCall :=
  (offsets.zipIdx.map fun (offset, i) =>
    [niSection sec, niItemInt id (BitVec.ofNat 32 i), niItemStr type (typeText (fdt.getprop offset "type".toList)),
      niEndsection sec]).flatten

/-- The nodes of the transceivers, with their types. -/
def transceivers (fdt : Fdt) : List (Option Nat) := (fdt.compatible "netcope,transceiver".toList).map some

/-- The nodes that the channels take their types from. -/
def channelTypes (fdt : Fdt) : List (Option Nat) :=
  (fdt.compatible "netcope,eth".toList).map fun node => fdt.nodeOffsetByPhandleRef node "pcspma".toList

/-- `nc_eth_get_count`. -/
def ncEthGetCount (fdt : Fdt) : Nat := (fdt.compatible "netcope,eth".toList).length

/-- `print_common_info`, what stands in the section of the board. -/
def boardCalls (dev : Device) (verbose : Nat) : List NiCall :=
  let fdtOffset := dev.fdt.pathOffset "/board/".toList
  niFdtPropStr .boardName dev.fdt fdtOffset "board-name" ++
    (serialNumber dev.fdt fdtOffset).toList.map (niItemStr .serialNumber) ++
    (if verbose > 1 then niFdtPropUint64Tx .fpgaUniqueId dev.fdt fdtOffset "fpga-uid" else []) ++
    [niItemInt .netIfcs (BitVec.ofNat 32 (transceivers dev.fdt).length)] ++
    if verbose ≠ 0 then
      (niList .listNetIfcs :: (typeSections .sec1NetIfcs .ifcId .ifcType dev.fdt (transceivers dev.fdt) ++
        [niEndlist .listNetIfcs])) ++ [niItemDouble .temperature dev.temperature]
    else []

/-- The time of the build; the text of it has no place in JSON. -/
def buildTime (fdt : Fdt) (fdtOffset : Option Nat) (strftime : BitVec 32 → List Char) : List NiCall :=
  match fdt.getprop fdtOffset "build-time".toList with
  | none => []
  | some prop =>
    if prop.value.length = 4 then
      [niItemStr .builtTime (strftime prop.read32), niItemInt .builtTimestamp prop.read32]
    else []

/-- `print_common_info`, what stands in the section of the firmware. -/
def firmwareCalls (dev : Device) (verbose : Nat) (strftime : BitVec 32 → List Char) : List NiCall :=
  let fdtOffset := dev.fdt.pathOffset "/firmware/".toList
  niFdtPropStr .cardName dev.fdt fdtOffset "card-name" ++
    niFdtPropStr .projectName dev.fdt fdtOffset "project-name" ++
    niFdtPropStr .projectVariant dev.fdt fdtOffset "project-variant" ++
    niFdtPropStr .projectVersion dev.fdt fdtOffset "project-version" ++
    buildTime dev.fdt fdtOffset strftime ++
    niFdtPropStr .buildTool dev.fdt fdtOffset "build-tool" ++
    niFdtPropStr .buildAuthor dev.fdt fdtOffset "build-author" ++
    niFdtPropStr .buildRevision dev.fdt fdtOffset "build-revision" ++
    [niItemInt .rxQueuesAll dev.rxQueueCount,
      niItemInt (if dev.rxQueueCount = dev.rxQueueAvailableCount then .rxQueuesEqAv else .rxQueuesNeqAv)
        dev.rxQueueAvailableCount,
      niItemInt .txQueuesAll dev.txQueueCount,
      niItemInt (if dev.txQueueCount = dev.txQueueAvailableCount then .txQueuesEqAv else .txQueuesNeqAv)
        dev.txQueueAvailableCount,
      niItemInt .ethChannels (BitVec.ofNat 32 (ncEthGetCount dev.fdt))] ++
    if verbose ≠ 0 then
      niList .listEthChannels :: (typeSections .sec1EthChannels .ethChannelId .ethChannelType dev.fdt (channelTypes dev.fdt) ++
        [niEndlist .listEthChannels])
    else []

/-- The endpoints of the device. -/
def endpoints (fdt : Fdt) : List Nat := fdt.subnodes (fdt.pathOffset "/system/device/".toList)

/-- `print_common_info`, what stands in the list of the endpoints. -/
def endpointCalls (fdt : Fdt) : Option (List NiCall) :=
  gather (fun node => (printEndpointInfo fdt node).map fun calls => niSection .sec1Pciep :: (calls ++ [niEndsection .sec1Pciep]))
    (endpoints fdt)

/-- `print_common_info`. -/
def printCommonInfo (dev : Device) (verbose : Nat) (strftime : BitVec 32 → List Char) : Option (List NiCall) :=
  (endpointCalls dev.fdt).map fun calls =>
    niSection .sec0BoardInfo :: (boardCalls dev verbose ++ [niEndsection .sec0BoardInfo]) ++
      niSection .sec0Firmware :: (firmwareCalls dev verbose strftime ++ [niEndsection .sec0Firmware]) ++
      niSection .sec0System :: ((niList .listPciep :: (calls ++ [niEndlist .listPciep])) ++ [niEndsection .sec0System])

/-- The calls of `main` for a device, none if something outside a table or buffer is touched. -/
def infoCalls (dev : Device) (verbose : Nat) (strftime : BitVec 32 → List Char) : Option (List NiCall) :=
  (printCommonInfo dev verbose strftime).map fun calls => niSection .secRoot :: (calls ++ [niEndsection .secRoot])

end NdkSw.Ni
