import LineCode.Proofs.Recovery
import LineCode.Proofs.Stream.Receiving
import LineCode.Proofs.Stream.Sending

/-!
# A link from end to end

A transmitter writes symbols to one device, its bytes are cut into chunks, and a receiver decodes
the chunks onto another device.  Whatever the disparity at the start, the calls, the cuts and the
ways in which obliging devices take their bytes, what arrives is what was sent.
-/

namespace LineCode.Stream

theorem byteOf_toNat (s : Symbol) : byteOf s.toNat = s.decode := by
  rw [byteOf, Symbol.ofBits_toNat]

theorem map_byteOf_symbols (e : Encoder) (ps : List Payload) :
    (pairs ((e.symbols ps).flatMap Symbol.bytes)).map byteOf = ps.map Payload.received := by
  rw [pairs_flatMap_bytes, List.map_map, ← e.map_decode_symbols]
  exact List.map_congr_left fun s _ => byteOf_toNat s

theorem reads_flatMap_bytes {r : Receiver Device} (hr : r.held = none) (ss : List Symbol) :
    r.Reads (ss.flatMap Symbol.bytes) := by
  intro v hv
  rw [hr, Option.toList_none, List.nil_append, pairs_flatMap_bytes] at hv
  obtain ⟨s, -, rfl⟩ := List.mem_map.mp hv
  exact s.toNat_lt

theorem receive_symbols {r : Receiver Device} (h : r.sink.Obliging) (hr : r.held = none)
    {ss : List Symbol} {chunks : List (List UInt8)}
    (hchunks : chunks.flatten = ss.flatMap Symbol.bytes) :
    (∀ x ∈ r.run (chunks.map .writeAll ++ [.close]), x.1 = .ok none) ∧
      (r.after (chunks.map .writeAll ++ [.close])).sink.out
        = r.sink.out ++ (pairs (ss.flatMap Symbol.bytes)).map byteOf := by
  have reads : r.Reads chunks.flatten := hchunks ▸ reads_flatMap_bytes hr ss
  obtain ⟨answers, taken⟩ := Receiver.run_writeAll_of_obliging h reads
  have held : (r.after (chunks.map .writeAll)).held = none := by
    rw [taken.held, hr, hchunks]
    exact leftover_flatMap_bytes ss
  obtain ⟨r', hclose, closed⟩ := Receiver.close_of_obliging taken.obliging held
  have step : (r.after (chunks.map .writeAll)).perform .close = (.ok none, r') := by
    rw [Receiver.perform, hclose]; rfl
  constructor
  · rw [Receiver.run_append]
    intro x hx
    rcases List.mem_append.mp hx with hx | hx
    · exact answers x hx
    · rw [List.mem_singleton.mp hx, step]
  · have out := (taken.trans closed).out
    rw [List.append_nil, hr, hchunks] at out
    rw [Receiver.after_append, Receiver.after, List.foldl_cons, step]
    exact out

/-- **What arrives is what was sent.**  Every call on the transmitter succeeds in full, its device
gains two bytes for each payload, and from them, in any chunks, a receiver succeeds in every call
and passes on one byte for each payload: the byte of a data period as it was, and of a control
period what its symbol decodes to. -/
theorem link_round_trip (e : Encoder) {d d' : Device} (hd : d.Obliging) (hd' : d'.Obliging)
    (steps : List Transmitter.Step) :
    let t : Transmitter Device := { encoder := e, sink := d }
    let ps := steps.flatMap Transmitter.Step.payloads
    let wire := (e.symbols ps).flatMap Symbol.bytes
    (t.run steps).map (·.1) = steps.map (fun step => .ok step.answer) ∧
    (t.after steps).sink.out = d.out ++ wire ∧
    wire.length = 2 * ps.length ∧
    ∀ chunks : List (List UInt8), chunks.flatten = wire →
      let r : Receiver Device := { sink := d' }
      let calls := chunks.map .writeAll ++ [.close]
      (∀ x ∈ r.run calls, x.1 = .ok none) ∧
      (r.after calls).sink.out = d'.out ++ ps.map Payload.received := by
  intro t ps wire
  obtain ⟨answers, sends⟩ := Transmitter.run_of_obliging (t := t) hd steps
  refine ⟨answers, sends.out, ?_, ?_⟩
  · rw [length_flatMap_bytes, Encoder.length_symbols]
  · intro chunks hchunks
    obtain ⟨results, out⟩ := receive_symbols (r := { sink := d' }) hd' rfl hchunks
    exact ⟨results, by rw [out, map_byteOf_symbols]⟩

/-- Symbols torn by the devices on both sides and by the cuts. -/
theorem link_round_trip_torn :
    let d : Device := { plan := [.take 1, .fail .interrupted "try again", .take 1, .take 1] }
    let d' : Device := { plan := [.fail .interrupted "try again", .take 7] }
    let steps : List Transmitter.Step := [.write [0x00, 0xFF], .send (.control .c3), .writeAll [0x00]]
    let chunks : List (List UInt8) := [[0x01], [0x00, 0x00, 0xFF], [], [0x02, 0xAB, 0x01], [0x00]]
    (d.Obliging ∧ d'.Obliging) ∧
    (Transmitter.after { encoder := {}, sink := d } steps).sink.out
      = [0x01, 0x00, 0x00, 0xFF, 0x02, 0xAB, 0x01, 0x00] ∧
    (Receiver.after { sink := d' } (chunks.map .writeAll ++ [.close])).sink.out
      = [0x00, 0xFF, 0x02, 0x00] := by
  intro d d' steps chunks
  have hd : d.Obliging := ⟨by decide, rfl⟩
  have hd' : d'.Obliging := ⟨by decide, rfl⟩
  obtain ⟨-, out, -, arrives⟩ := link_round_trip {} hd hd' steps
  exact ⟨⟨hd, hd'⟩, out.trans (by decide), (arrives chunks (by decide)).2.trans (by decide)⟩

end LineCode.Stream
