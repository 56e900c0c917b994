import Keychain.Tls.Integrity
import Keychain.Usb.Inbound

namespace keychain.tls

open usb (OutController RxStatus SlaveDevice UsbStep Seen handed acked wMaxPacketSize)

variable {η : Type}

/-- The firmware with the USB device below it. -/
structure Link (η : Type) where
  slave : SlaveDevice η
  device : Device

inductive LinkStep where
  | usb (step : UsbStep)
  /-- wolfSSL wants to read. -/
  | recv (sz : Int)

/-- A poll that hands over a packet, as the firmware sees it. -/
def polling (packet : Option (List UInt8)) : Usb where
  connected _ := true
  packet _ := packet
  tx_ok _ := true

def Link.step (pcd : OutController η) (l : Link η) : LinkStep → Link η × Option Seen
  | .usb input =>
    let stepped := l.slave.step pcd input
    let device :=
      match stepped.2 with
      | .polled packet => usb_device_task (polling packet) l.device
      | _ => l.device
    (⟨stepped.1, device⟩, some stepped.2)
  | .recv sz => (⟨l.slave, (handle (polling none) (.recv sz) l.device).2⟩, none)

/-- What the host and the polls see of a run. -/
def seen (pcd : OutController η) (l : Link η) (inputs : List LinkStep) : List Seen :=
  (machine.run (Link.step pcd) l inputs).2.filterMap id

/-- What a run gives the USB device to do. -/
def usb_steps (inputs : List LinkStep) : List UsbStep :=
  inputs.filterMap fun
    | .usb step => some step
    | .recv _ => none

/-- A session that has reset its ring. -/
def Device.listening (d : Device) : Device :=
  { d with tls_active := true, rxRing := d.rxRing.reset }

theorem routed_append (evs more : List Event) : routed (evs ++ more) = routed evs ++ routed more := by
  simp [routed]

/-- In a session, a poll gives the ring what it hands over. -/
theorem polling_routed {d : Device} (hactive : d.tls_active = true) (packet : Option (List UInt8)) :
    ∃ more, (usb_device_task (polling packet) d).trace = d.trace ++ more ∧
      routed more = packet.toList.flatten := by
  obtain ⟨hnone, heq⟩ | ⟨buf, hbuf, -, heq⟩ | ⟨buf, console, -, hinactive, -⟩ :=
    usb_device_task_cases (polling packet) d
  · refine ⟨[], by rw [heq, List.append_nil]; rfl, ?_⟩
    cases packet with
    | none => rfl
    | some buf =>
      have hempty : buf = [] := by simpa [Usb.delivers, polling, Option.filter] using hnone
      rw [hempty]
      rfl
  · have hpacket : packet = some buf := by
      simp only [Usb.delivers, polling, if_true, Option.filter_eq_some_iff] at hbuf
      exact hbuf.1
    refine ⟨[.to_ring buf (RB_Write_loop d.rxRing 0 buf).2], by rw [heq]; rfl, ?_⟩
    rw [hpacket]
    rfl
  · rw [hactive] at hinactive
    cases hinactive

/-- In a session, a step gives the ring the packet that it hands over, and nothing else. -/
theorem Link.step_routed (pcd : OutController η) (l : Link η) (hactive : l.device.tls_active = true)
    (input : LinkStep) :
    ∃ more, (l.step pcd input).1.device.trace = l.device.trace ++ more ∧
      (l.step pcd input).1.device.tls_active = true ∧
      routed more = (handed (l.step pcd input).2.toList).flatten := by
  cases input with
  | usb step =>
    simp only [Link.step, Option.toList_some]
    cases hseen : (l.slave.step pcd step).2 with
    | polled packet =>
      obtain ⟨more, htrace, hrouted⟩ := polling_routed hactive packet
      refine ⟨more, htrace, (usb_device_task_same_calls _ _).2.trans hactive, ?_⟩
      rw [hrouted]
      cases packet <;> rfl
    | _ => exact ⟨[], (List.append_nil _).symm, hactive, rfl⟩
  | recv sz =>
    obtain ⟨-, -, htrace, hsame⟩ := EmbedReceive_frame l.device sz
    exact ⟨[.embed_receive _ sz _ _], congrArg (· ++ _) htrace, hsame.trans hactive, rfl⟩

theorem Link.run_routed (pcd : OutController η) (l : Link η) (hactive : l.device.tls_active = true)
    (inputs : List LinkStep) :
    ∃ more, (machine.run (Link.step pcd) l inputs).1.device.trace = l.device.trace ++ more ∧
      routed more = (handed (seen pcd l inputs)).flatten := by
  induction inputs generalizing l with
  | nil => exact ⟨[], (List.append_nil _).symm, rfl⟩
  | cons input rest ih =>
    obtain ⟨first, hfirst, hnext, hrouted⟩ := l.step_routed pcd hactive input
    obtain ⟨more, hmore, hlater⟩ := ih _ hnext
    refine ⟨first ++ more, ?_, ?_⟩
    · rw [machine.run_cons, hmore, hfirst, List.append_assoc]
    · have hseen : seen pcd l (input :: rest) =
          (l.step pcd input).2.toList ++ seen pcd (l.step pcd input).1 rest := by
        rw [seen, machine.run_cons, List.filterMap_cons]
        cases (l.step pcd input).2 <;> rfl
      have hhanded : handed (seen pcd l (input :: rest)) =
          handed (l.step pcd input).2.toList ++ handed (seen pcd (l.step pcd input).1 rest) := by
        rw [hseen]
        exact List.filterMap_append
      rw [routed_append, hrouted, hlater, hhanded, List.flatten_append]

theorem Link.step_streaming (pcd : OutController η) {base : List Event} {l : Link η}
    (h : l.device.Streaming base) (input : LinkStep) : (l.step pcd input).1.device.Streaming base := by
  cases input with
  | usb step =>
    simp only [Link.step]
    split
    · exact h.poll _
    · exact h
  | recv sz => exact h.receive (polling none) sz

/-- The part of a run that the USB device takes is a run of its own. -/
theorem Link.run_slave (pcd : OutController η) (l : Link η) (inputs : List LinkStep) :
    (machine.run (Link.step pcd) l inputs).1.slave =
        (machine.run (SlaveDevice.step pcd) l.slave (usb_steps inputs)).1 ∧
      seen pcd l inputs = (machine.run (SlaveDevice.step pcd) l.slave (usb_steps inputs)).2 :=
  machine.run_project (Link.step pcd) (SlaveDevice.step pcd) (fun _ => True) Link.slave
    (fun | .usb step => some step | .recv _ => none) id
    (fun l input _ => ⟨trivial, by cases input <;> exact ⟨rfl, rfl⟩⟩) trivial inputs

theorem Device.listening_streaming (d : Device) : d.listening.Streaming d.trace := by
  refine ⟨[], (List.append_nil _).symm, RingBuffer.valid_reset _, by simp, ?_, ⟨by simp, ?_⟩⟩
  · simp [Device.listening, received, kept]
  · exact history.preceded_of_forall_not _ (by simp)

/-- A session of a device that stays configured, in whatever state its ring and the device are
    when it begins, and however packets, polls and reads alternate: from the first byte on that
    was not handed over before, what wolfSSL has received, what waits for it in the ring and the
    one packet that the next polls hand over are what the host has had acknowledged. -/
theorem session_receives_host_bytes {pcd : OutController η} {status : η → RxStatus}
    (hpcd : pcd.Documented status) {hal : η} (hhal : status hal = .DISABLED) (data buffer : Nat → UInt8)
    {before : List UsbStep} (hbefore : ∀ step ∈ before, step.Plain) (d : Device)
    {inputs : List LinkStep} (hplain : ∀ step ∈ usb_steps inputs, step.Plain) :
    let earlier := machine.run (SlaveDevice.step pcd) (.start hal data buffer) before
    let start : Link η := ⟨earlier.1, d.listening⟩
    let ran := (machine.run (Link.step pcd) start inputs).1
    let evs := ran.device.trace.drop d.trace.length
    earlier.1.state = .CONFIGURED → .closed ∉ earlier.2 ++ seen pcd start inputs → Lossless evs →
      (handed earlier.2).flatten ++ received evs ++ ran.device.rxRing.queue ++
          (ran.slave.pending pcd).flatten =
        (acked (earlier.2 ++ seen pcd start inputs)).flatten ∧
      (ran.slave.pending pcd).length ≤ 1 ∧ (ran.slave.pending pcd).flatten.length ≤ wMaxPacketSize := by
  intro earlier start ran evs hconfigured hopen hlossless
  obtain ⟨hlast, hslave⟩ := start.run_slave pcd inputs
  have hwhole : machine.run (SlaveDevice.step pcd) (.start hal data buffer) (before ++ usb_steps inputs) =
      (ran.slave, earlier.2 ++ seen pcd start inputs) := by
    rw [machine.run_append, hslave]
    exact congrArg (·, _) hlast.symm
  have hstays : ran.slave.state = .CONFIGURED := by
    rw [List.mem_append, not_or, hslave] at hopen
    exact hlast ▸ SlaveDevice.stays_configured hconfigured hopen.2
  obtain ⟨hpending, hbound⟩ := by
    have hreach := usb.acked_packets_reach_handler hpcd hhal data buffer
      (List.forall_mem_append.mpr ⟨hbefore, hplain⟩)
    rw [hwhole] at hreach
    exact hreach hopen hstays
  have hstreaming : ran.device.Streaming d.trace :=
    machine.run_invariant (Link.step pcd) (fun l => l.device.Streaming d.trace) (fun _ => True)
      (fun _ input h _ => Link.step_streaming pcd h input) start inputs d.listening_streaming
      (fun _ _ => trivial)
  obtain ⟨stream, hstream, -, -, hlinked, -⟩ := hstreaming
  obtain ⟨more, hmore, hrouted⟩ := start.run_routed pcd rfl inputs
  have hevs : evs = stream := by
    change ran.device.trace.drop d.trace.length = stream
    rw [hstream, List.drop_left]
  have hsame : more = stream := List.append_cancel_left (hmore.symm.trans hstream)
  have hring : received evs ++ ran.device.rxRing.queue = (handed (seen pcd start inputs)).flatten := by
    rw [← hrouted, hsame, hevs, hlinked, ← hevs, kept_of_lossless hlossless]
  refine ⟨?_, hbound⟩
  have hflat := congrArg List.flatten hpending
  rw [usb.flatten_nonempty, List.flatten_append] at hflat
  have hhanded : handed (earlier.2 ++ seen pcd start inputs) =
      handed earlier.2 ++ handed (seen pcd start inputs) := List.filterMap_append
  rw [hhanded, List.flatten_append, ← hring] at hflat
  rw [← hflat]
  simp only [List.append_assoc]

end keychain.tls
