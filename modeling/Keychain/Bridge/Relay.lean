import Keychain.Bridge.Forward
import Keychain.Tls.Inbound

namespace keychain.bridge

open tls (Link LinkStep Device received Lossless usb_steps)
open usb (OutController RxStatus SlaveDevice UsbStep Seen handed acked wMaxPacketSize)

/-- The loop of `main`: whether it goes on, and its variable. -/
structure Bridge where
  running : Bool
  tls_active : Bool

/-- What `select` has found readable, with what is read then: a line, bytes from the serial
    port, bytes from the socket, or an exception is raised. -/
inductive Readable where
  | stdin (line : List UInt8)
  | ser (data : List UInt8)
  | sock (data : List UInt8)
  | exception

/-- The bytes for `ser.write` and those for `sock.sendall`. The server has closed the
    connection if there is nothing to read from it. -/
def Bridge.turn (b : Bridge) (readable : Readable) : Bridge × List UInt8 × List UInt8 :=
  if b.running then
    match readable with
    | .stdin line => (b, line, [])
    | .ser data =>
      let forwarded := bridge_read b.tls_active data
      ({ b with tls_active := forwarded.1 }, [], forwarded.2)
    | .sock data => if data = [] then ({ b with running := false }, [], []) else (b, data, [])
    | .exception => ({ b with running := false }, [], [])
  else (b, [], [])

/-- A call of `ser.write`. With `write_timeout=0` it takes some first part of the bytes and
    returns the length of it, which the bridge does not look at. -/
structure Write where
  data : List UInt8
  accepted : Nat
  typed : Bool

def Write.taken (w : Write) : List UInt8 :=
  w.data.take w.accepted

/-- The bytes that come from the server. -/
def Write.relayed (w : Write) : List UInt8 :=
  if w.typed then [] else w.data

/-- All that is between the server and wolfSSL: the bytes that the bridge has not yet
    received, those that the serial port has taken and the device has not yet acknowledged,
    and the device. -/
structure Network (η : Type) where
  relay : Bridge
  socket : List UInt8
  port : List UInt8
  link : Link η

inductive NetworkStep where
  /-- The server sends. -/
  | server (bytes : List UInt8)
  /-- `sock.recv(4096)` returns at most `n + 1` bytes. -/
  | sock (n accepted : Nat)
  | stdin (line : List UInt8) (accepted : Nat)
  | ser (data : List UInt8)
  | exception
  /-- The host sends the device a packet of the first bytes of the port. -/
  | packet (n : Nat)
  | poll
  /-- wolfSSL wants to read. -/
  | recv (sz : Int)
  | set_configuration (configuration_value : Nat)
  | bus_reset
  | disconnect

section

variable {η : Type}

def Network.write (n : Network η) (readable : Readable) (accepted : Nat) (typed : Bool) :
    Network η × Write :=
  let turned := n.relay.turn readable
  let w : Write := ⟨turned.2.1, accepted, typed⟩
  ({ n with relay := turned.1, port := n.port ++ w.taken }, w)

def Network.device (pcd : OutController η) (n : Network η) (step : LinkStep) :
    Network η × Option Seen :=
  ({ n with link := (n.link.step pcd step).1 }, (n.link.step pcd step).2)

/-- A step, with what the USB device shows of it and the call of `ser.write`, if there is one. -/
def Network.step (pcd : OutController η) (n : Network η) :
    NetworkStep → Network η × Option Seen × Option Write
  | .server bytes => ({ n with socket := n.socket ++ bytes }, none, none)
  | .sock k accepted =>
    if n.relay.running then
      let data := n.socket.take (min (k + 1) 4096)
      let written := n.write (.sock data) accepted false
      ({ written.1 with socket := n.socket.drop data.length }, none, some written.2)
    else (n, none, none)
  | .stdin line accepted =>
    let written := n.write (.stdin line) accepted true
    (written.1, none, some written.2)
  | .ser data => ({ n with relay := (n.relay.turn (.ser data)).1 }, none, none)
  | .exception => ({ n with relay := (n.relay.turn .exception).1 }, none, none)
  | .packet k =>
    let packet := n.port.take k
    let sent := n.device pcd (.usb (.packet packet))
    let port := if sent.2 = some (.acked packet) then n.port.drop packet.length else n.port
    ({ sent.1 with port }, sent.2, none)
  | .poll => ((n.device pcd (.usb .poll)).1, (n.device pcd (.usb .poll)).2, none)
  | .recv sz => ((n.device pcd (.recv sz)).1, (n.device pcd (.recv sz)).2, none)
  | .set_configuration value =>
    let set := n.device pcd (.usb (.set_configuration value))
    (set.1, set.2, none)
  | .bus_reset => ((n.device pcd (.usb .bus_reset)).1, (n.device pcd (.usb .bus_reset)).2, none)
  | .disconnect => ((n.device pcd (.usb .disconnect)).1, (n.device pcd (.usb .disconnect)).2, none)

/-- What the server sends in a run. -/
def server_bytes (inputs : List NetworkStep) : List UInt8 :=
  (inputs.map fun
    | .server bytes => bytes
    | _ => []).flatten

def Network.seen (pcd : OutController η) (n : Network η) (inputs : List NetworkStep) : List Seen :=
  (machine.run (Network.step pcd) n inputs).2.filterMap (·.1)

def Network.writes (pcd : OutController η) (n : Network η) (inputs : List NetworkStep) : List Write :=
  (machine.run (Network.step pcd) n inputs).2.filterMap (·.2)

/-- What the device does is a run of it. -/
def Network.Links (pcd : OutController η) (before after : Link η) (seen : List Seen) : Prop :=
  ∃ steps : List LinkStep, after = (machine.run (Link.step pcd) before steps).1 ∧
    seen = tls.seen pcd before steps ∧ ∀ step ∈ usb_steps steps, step.Plain

/-- Where a step leads, the port holds what it held and was given, less what the device has
    acknowledged, and the socket what it held and was sent, less what the bridge has received. -/
structure Network.Accounts (pcd : OutController η) (n : Network η) (input : NetworkStep)
    (step : Network η × Option Seen × Option Write) : Prop where
  port : (acked step.2.1.toList).flatten ++ step.1.port =
    n.port ++ (step.2.2.toList.map Write.taken).flatten
  socket : (step.2.2.toList.map Write.relayed).flatten ++ step.1.socket =
    n.socket ++ server_bytes [input]
  link : Links pcd n.link step.1.link step.2.1.toList

variable {pcd : OutController η} {n : Network η}

/-- A step that leaves the device alone. -/
theorem Network.Accounts.of_link_eq {input : NetworkStep} {n' : Network η} {w : Option Write}
    (hlink : n'.link = n.link) (hport : n'.port = n.port ++ (w.toList.map Write.taken).flatten)
    (hsocket : (w.toList.map Write.relayed).flatten ++ n'.socket = n.socket ++ server_bytes [input]) :
    n.Accounts pcd input (n', none, w) :=
  ⟨hport, hsocket, [], hlink, rfl, by simp [usb_steps]⟩

/-- A step of the device in which no packet is acknowledged. -/
theorem Network.Accounts.of_device {input : NetworkStep} (step : LinkStep)
    (hinput : server_bytes [input] = []) (hacked : acked (n.device pcd step).2.toList = [])
    (hplain : ∀ given ∈ usb_steps [step], given.Plain) :
    n.Accounts pcd input ((n.device pcd step).1, (n.device pcd step).2, none) := by
  refine ⟨?_, ?_, [step], rfl, ?_, hplain⟩
  · rw [hacked]
    exact (List.append_nil _).symm
  · rw [hinput]
    exact (List.append_nil _).symm
  · rw [tls.seen, machine.run_cons, Network.device]
    cases (n.link.step pcd step).2 <;> rfl

/-- Only a packet is acknowledged. -/
theorem acked_control (d next : SlaveDevice η) : acked [(d.control next).2] = [] := by
  rw [SlaveDevice.control]
  split_ifs <;> rfl

/-- The port is given what `ser.write` takes. -/
theorem Network.write_port (readable : Readable) (accepted : Nat) (typed : Bool) :
    (n.write readable accepted typed).1.port =
      n.port ++ ((some (n.write readable accepted typed).2).toList.map Write.taken).flatten := by
  rw [Option.toList_some, List.map_singleton, List.flatten_singleton]
  rfl

theorem take_append_drop_length (k : Nat) (bytes : List UInt8) :
    bytes.take k ++ bytes.drop (bytes.take k).length = bytes :=
  (List.prefix_iff_eq_append).mp (List.take_prefix k bytes)

theorem Network.accounts_sock (k accepted : Nat) :
    n.Accounts pcd (.sock k accepted) (n.step pcd (.sock k accepted)) := by
  rw [Network.step]
  split_ifs with hrunning
  · have hsplit := take_append_drop_length (min (k + 1) 4096) n.socket
    generalize n.socket.take (min (k + 1) 4096) = data at hsplit
    have hturn : (n.relay.turn (.sock data)).2.1 = data := by
      rw [Bridge.turn, if_pos hrunning]
      cases data <;> rfl
    refine .of_link_eq rfl (Network.write_port _ _ _) ?_
    rw [Option.toList_some, List.map_singleton, List.flatten_singleton]
    exact (congrArg (· ++ n.socket.drop data.length) hturn).trans (hsplit.trans (List.append_nil _).symm)
  · exact .of_link_eq rfl (List.append_nil _).symm (List.append_nil _).symm

theorem Network.accounts_packet (k : Nat) : n.Accounts pcd (.packet k) (n.step pcd (.packet k)) := by
  have hsplit := take_append_drop_length k n.port
  generalize hpacket : n.port.take k = packet at hsplit
  have hseen : (n.device pcd (.usb (.packet packet))).2 = some (.acked packet) ∨
      (n.device pcd (.usb (.packet packet))).2 = some .other := by
    have hdevice : (n.device pcd (.usb (.packet packet))).2 =
        some (if (n.link.slave.acm.transfer.packet pcd packet).1 then .acked packet else .other) := rfl
    rw [hdevice]
    split_ifs
    · exact .inl rfl
    · exact .inr rfl
  rw [Network.step, hpacket]
  refine ⟨?_, (List.append_nil _).symm, [.usb (.packet packet)], rfl, rfl, by simp [usb_steps, UsbStep.Plain]⟩
  dsimp only
  obtain hacked | hother := hseen
  · rw [hacked, if_pos rfl]
    refine Eq.trans ?_ (List.append_nil _).symm
    exact (congrArg (· ++ n.port.drop packet.length) (List.append_nil packet)).trans hsplit
  · rw [hother, if_neg (by simp)]
    exact (List.append_nil _).symm

theorem Network.accounts (pcd : OutController η) (n : Network η) (input : NetworkStep) :
    n.Accounts pcd input (n.step pcd input) := by
  cases input with
  | server bytes => exact .of_link_eq rfl (List.append_nil _).symm (by simp [server_bytes])
  | sock k accepted => exact n.accounts_sock k accepted
  | stdin line accepted =>
    exact .of_link_eq rfl (Network.write_port _ _ _) (List.append_nil _).symm
  | ser data => exact .of_link_eq rfl (List.append_nil _).symm (List.append_nil _).symm
  | exception => exact .of_link_eq rfl (List.append_nil _).symm (List.append_nil _).symm
  | packet k => exact n.accounts_packet k
  | poll => exact .of_device _ rfl rfl (by decide)
  | recv sz => exact .of_device _ rfl rfl (by simp [usb_steps])
  | set_configuration value =>
    exact .of_device _ rfl (acked_control _ _) (by simp [usb_steps, UsbStep.Plain])
  | bus_reset => exact .of_device _ rfl (acked_control _ _) (by decide)
  | disconnect => exact .of_device _ rfl (acked_control _ _) (by decide)

theorem Network.seen_cons (n : Network η) (input : NetworkStep) (rest : List NetworkStep) :
    n.seen pcd (input :: rest) =
      (n.step pcd input).2.1.toList ++ (n.step pcd input).1.seen pcd rest := by
  rw [Network.seen, machine.run_cons, List.filterMap_cons]
  cases (n.step pcd input).2.1 <;> rfl

theorem Network.writes_cons (n : Network η) (input : NetworkStep) (rest : List NetworkStep) :
    n.writes pcd (input :: rest) =
      (n.step pcd input).2.2.toList ++ (n.step pcd input).1.writes pcd rest := by
  rw [Network.writes, machine.run_cons, List.filterMap_cons]
  cases (n.step pcd input).2.2 <;> rfl

theorem Network.Links.append {first second third : Link η} {earlier later : List Seen}
    (h : Links pcd first second earlier) (h' : Links pcd second third later) :
    Links pcd first third (earlier ++ later) := by
  obtain ⟨steps, rfl, rfl, hplain⟩ := h
  obtain ⟨steps', rfl, rfl, hplain'⟩ := h'
  refine ⟨steps ++ steps', ?_, ?_, ?_⟩
  · rw [machine.run_append]
  · simp only [tls.seen, machine.run_append, List.filterMap_append]
  · rw [usb_steps, List.filterMap_append]
    exact List.forall_mem_append.mpr ⟨hplain, hplain'⟩

theorem acked_append (first second : List Seen) : acked (first ++ second) = acked first ++ acked second :=
  List.filterMap_append

variable (pcd) in
/-- What holds of a step adds up over a run. -/
theorem Network.run_accounts (n : Network η) (inputs : List NetworkStep) :
    (acked (n.seen pcd inputs)).flatten ++ (machine.run (Network.step pcd) n inputs).1.port =
        n.port ++ ((n.writes pcd inputs).map Write.taken).flatten ∧
      ((n.writes pcd inputs).map Write.relayed).flatten ++
          (machine.run (Network.step pcd) n inputs).1.socket =
        n.socket ++ server_bytes inputs ∧
      Links pcd n.link (machine.run (Network.step pcd) n inputs).1.link (n.seen pcd inputs) := by
  induction inputs generalizing n with
  | nil => exact ⟨(List.append_nil _).symm, (List.append_nil _).symm, [], rfl, rfl, by simp [usb_steps]⟩
  | cons input rest ih =>
    obtain ⟨hport, hsocket, hlink⟩ := n.accounts pcd input
    obtain ⟨hports, hsockets, hlinks⟩ := ih (n.step pcd input).1
    have hserver : server_bytes (input :: rest) = server_bytes [input] ++ server_bytes rest :=
      (congrArg (· ++ _) (List.append_nil _)).symm
    rw [n.seen_cons, n.writes_cons, machine.run_cons]
    refine ⟨?_, ?_, hlink.append hlinks⟩
    · rw [acked_append, List.flatten_append, List.append_assoc, hports, ← List.append_assoc, hport,
        List.map_append, List.flatten_append, List.append_assoc]
    · rw [List.map_append, List.flatten_append, List.append_assoc, hsockets, ← List.append_assoc, hsocket,
        hserver, List.append_assoc]

end

theorem Write.length_taken_le (w : Write) : w.taken.length ≤ w.data.length := by
  rw [Write.taken, List.length_take]
  exact Nat.min_le_right _ _

theorem Write.length_taken_eq_iff (w : Write) :
    w.taken.length = w.data.length ↔ w.data.length ≤ w.accepted := by
  rw [Write.taken, List.length_take]
  omega

/-- Together, the writes have taken no more than they were given, and as much only if each of
    them has. -/
theorem length_taken (writes : List Write) :
    (writes.map Write.taken).flatten.length ≤ (writes.map Write.data).flatten.length ∧
      ((writes.map Write.taken).flatten.length = (writes.map Write.data).flatten.length ↔
        ∀ w ∈ writes, w.data.length ≤ w.accepted) := by
  induction writes with
  | nil => simp
  | cons w writes ih =>
    obtain ⟨hle, hiff⟩ := ih
    have hhere := w.length_taken_le
    simp only [List.map_cons, List.flatten_cons, List.length_append, List.forall_mem_cons]
    refine ⟨Nat.add_le_add hhere hle, ?_⟩
    rw [← hiff, ← w.length_taken_eq_iff]
    omega

/-- If only the server's bytes were written, all of them were taken exactly if each write has
    taken all of its own. -/
theorem taken_eq_relayed_iff {writes : List Write} (h : ∀ w ∈ writes, w.typed = true → w.data = []) :
    (writes.map Write.taken).flatten = (writes.map Write.relayed).flatten ↔
      ∀ w ∈ writes, w.data.length ≤ w.accepted := by
  have hrelayed : writes.map Write.relayed = writes.map Write.data := by
    refine List.map_congr_left fun w hw => ?_
    rw [Write.relayed]
    split_ifs with htyped
    · exact (h w hw htyped).symm
    · rfl
  rw [hrelayed, ← (length_taken writes).2]
  constructor
  · exact congrArg List.length
  · intro hlength
    have hall := (length_taken writes).2.mp hlength
    exact congrArg List.flatten (List.map_congr_left fun w hw => List.take_of_length_le (hall w hw))

end keychain.bridge
