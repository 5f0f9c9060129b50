import CSync.Core.Crc16

/-! Commands for all nodes (`apps/shell/shell-rime-netcmd.c`).

    A command line goes out with its checksum, and its end is not in the sum. The receiver writes the NUL at the end
    itself. -/

namespace CSync.Netcmd
open Crc16 List

/-- `struct trickle_msg`, as long as the data of the packet. -/
structure TrickleMsg where
  crc : UInt16
  netcmd : List UInt8
  deriving DecidableEq

/-- `shell_netcmd_process`: the line, without the NUL behind it, goes out if it fits. -/
def shellNetcmd (packetbufSize : Nat) (line : List UInt8) : Option TrickleMsg :=
  if packetbufSize < line.length + 32 then none else some ⟨crc16Data line 0, line ++ [0]⟩

/-- `recv_trickle`: the string that `shell_netcmd_server_process` starts with, up to its NUL. -/
def recvTrickle (msg : TrickleMsg) : Option (List UInt8) :=
  let datalen := 2 + msg.netcmd.length
  if 1 + 2 < datalen then
    let len := datalen - 1 - 2
    let netcmd := msg.netcmd.set len 0
    if msg.crc = crc16Data (netcmd.take len) 0 then some (netcmd.takeWhile (· ≠ 0)) else none
  else none

theorem recvTrickle_eq {crc : UInt16} {line : List UInt8} {last : UInt8} (hline : line ≠ []) :
    recvTrickle ⟨crc, line ++ [last]⟩ =
      if crc = crc16Data line 0 then some ((line ++ [0]).takeWhile (· ≠ 0)) else none := by
  have hpos := length_pos_iff.mpr hline
  have hlen : 2 + (line ++ [last]).length - 1 - 2 = line.length := by rw [length_append, length_singleton]; omega
  rw [recvTrickle]
  dsimp only
  rw [if_pos (by rw [length_append, length_singleton]; omega), hlen, set_append_right _ _ (Nat.le_refl _),
    Nat.sub_self, take_left]
  rfl

/-- REMOTE COMMAND: what a node sends starts the same line at a node that receives it, and damage to the number, or
    to bits of the line and its end that are within sixteen places, never starts another one. -/
theorem netcmd_intact {packetbufSize : Nat} {line : List UInt8} (hline : line ≠ []) (hnul : 0 ∉ line)
    (hfits : line.length + 32 ≤ packetbufSize) : ∃ msg, shellNetcmd packetbufSize line = some msg ∧
    recvTrickle msg = some line ∧
    (∀ crc, crc ≠ msg.crc → recvTrickle ⟨crc, msg.netcmd⟩ = none) ∧
    ∀ netcmd, Burst 16 (msg.netcmd.flatMap bitsOf) (netcmd.flatMap bitsOf) →
      recvTrickle ⟨msg.crc, netcmd⟩ = none ∨ recvTrickle ⟨msg.crc, netcmd⟩ = some line := by
  have hstring : (line ++ [0]).takeWhile (· ≠ 0) = line := by
    rw [takeWhile_append_of_pos fun b hb => decide_eq_true (ne_of_mem_of_not_mem hb hnul)]
    exact append_nil line
  refine ⟨⟨crc16Data line 0, line ++ [0]⟩, if_neg (Nat.not_lt.mpr hfits), ?_, fun crc hcrc => ?_, fun netcmd hburst => ?_⟩
  · rw [recvTrickle_eq hline, if_pos rfl, hstring]
  · rw [recvTrickle_eq hline, if_neg hcrc]
  · have hlen : (line ++ [0]).length = netcmd.length := hburst.length_eq
    obtain ⟨line', last, rfl⟩ : ∃ line' last, netcmd = line' ++ [last] := by
      refine ⟨netcmd.dropLast, netcmd.getLast ?_, (dropLast_concat_getLast _).symm⟩
      rintro rfl
      rw [length_append] at hlen
      cases hlen
    rw [length_append, length_append, length_singleton, length_singleton] at hlen
    have hline' : line' ≠ [] := by
      rintro rfl
      exact hline (eq_nil_of_length_eq_zero (by rw [length_nil] at hlen; omega))
    rw [recvTrickle_eq hline']
    by_cases hsame : line = line'
    · rw [← hsame, hstring]
      exact .inr (if_pos rfl)
    · rw [flatMap_append, flatMap_append] at hburst
      have hleft := hburst.left (by rw [flatMap_bitsOf_length, flatMap_bitsOf_length]; omega)
      exact .inl (if_neg (crc16Data_ne hleft hsame 0))

theorem netcmd_intact_ls : ∃ msg, shellNetcmd 128 [0x6c, 0x73] = some msg ∧ recvTrickle msg = some [0x6c, 0x73] := by
  have hnul : (0 : UInt8) ∉ [0x6c, 0x73] := by decide
  obtain ⟨msg, hsent, hheard, -, -⟩ := netcmd_intact (cons_ne_nil _ _) hnul (by decide : 2 + 32 ≤ 128)
  exact ⟨msg, hsent, hheard⟩

end CSync.Netcmd
