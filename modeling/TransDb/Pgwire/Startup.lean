import TransDb.Pgwire.Steps

/-!
# The startup of a session

The packets before the first message: requests for encryption, and the startup message.

* `startupPacket`, `startupBytes` — what a client sends.
* `startup_in_step_iff` — when `ReadStartupNegotiation` takes one packet after the other.
-/

namespace TransDb.Pgwire

open Option List Sql
open Stateful (Runs runs_pure runs_modify_bind)
open Program (Event)

/-- A packet of the startup; its length counts its own four bytes. -/
def startupPacket (body : Bytes) : Bytes := beBytes 4 (body.length + 4) ++ body

/-- The bytes of a client: requests of eight bytes, the startup message and the messages. -/
def startupBytes (codes : List Bytes) (body rest : Bytes) : Bytes :=
  codes.flatMap startupPacket ++ (startupPacket body ++ rest)

/-- The answer to a request for TLS. -/
def refusal : Event Request.Answer := ⟨.send (ascii "N"), true⟩

theorem takeBe_append {bs : Bytes} {w : ℕ} (h : bs.length = w) (rest : Bytes) :
    takeBe w (bs ++ rest) = some (beNat bs, rest) := by
  subst h
  simp [takeBe]

theorem takeBe_startupPacket {body : Bytes} (h : body.length + 4 < 2 ^ 32) (rest : Bytes) :
    takeBe 4 (startupPacket body ++ rest) = some (body.length + 4, body ++ rest) := by
  rw [startupPacket, append_assoc, takeBe_append (length_beBytes _ _), beNat_beBytes,
    Nat.mod_eq_of_lt (show _ < 256 ^ 4 from h)]

/-- The loop goes on behind a request for TLS. -/
theorem runs_refusal {next : Wire (Option (Bytes × Bytes))} {s : PgSession} {tr : Trace}
    {r : Option (Option (Bytes × Bytes) × PgSession)} :
    Runs (do if ← sendBytes (ascii "N") then next else return none) s (refusal :: tr) r ↔
      Runs next s tr r := by
  rw [runs_sendBytes_bind]
  constructor
  · rintro ⟨ok, tr', htr, hnext⟩
    cases htr
    simpa using hnext
  · intro hnext
    refine ⟨true, tr, rfl, ?_⟩
    simpa using hnext

theorem readStartup_iff {codes : List Bytes} (hcodes : ∀ c ∈ codes, c.length = 4)
    {body rest : Bytes} (hlong : 4 < body.length) (hlen : body.length + 4 < 2 ^ 32)
    {s : PgSession} {n : ℕ} (hn : codes.length < n) :
    Runs (readStartup n (startupBytes codes body rest)) s
        (codes.map fun _ => refusal) (some (some (startupPacket body, rest), s)) ↔
      ∀ c ∈ codes, beNat c = sslRequestCode := by
  obtain ⟨n, rfl⟩ := Nat.exists_eq_succ_of_ne_zero (Nat.ne_zero_of_lt hn)
  induction codes generalizing n with
  | nil =>
    have htake : (startupPacket body ++ rest).take 4 = beBytes 4 (body.length + 4) := by
      simp [startupPacket]
    rw [startupBytes, flatMap_nil, nil_append, readStartup, takeBe_startupPacket hlen, htake]
    simp [show ¬ body.length + 4 < 8 by omega, hlong.ne', runs_pure, startupPacket]
  | cons c codes ih =>
    obtain ⟨hc, hcodes⟩ := forall_mem_cons.mp hcodes
    rw [startupBytes, flatMap_cons, append_assoc, readStartup, takeBe_startupPacket (by omega), hc]
    simp only [Nat.reduceAdd, lt_irrefl, if_false, if_true, takeBe_append hc, true_and, map_cons,
      forall_mem_cons]
    split_ifs with hcode hshort
    · obtain ⟨n, rfl⟩ := Nat.exists_eq_succ_of_ne_zero (show n ≠ 0 by simp at hn; omega)
      rw [runs_refusal, and_iff_right hcode]
      exact ih hcodes n (by simpa using hn)
    -- the four bytes behind another code are taken for the packet, without an answer
    · exact iff_of_false (fun h => by cases (runs_modify_bind.mp h).1) fun h => hcode h.1
    · exact iff_of_false (fun h => by cases (runs_pure.mp h).1) fun h => hcode h.1

/-- **The startup keeps in step** with the packets, each answered once and the last one returned
with all that is behind it, exactly if every packet of eight bytes is a request for TLS. -/
theorem startup_in_step_iff (codes : List Bytes) (hcodes : ∀ c ∈ codes, c.length = 4)
    (body rest : Bytes) (hlong : 4 < body.length) (hlen : body.length + 4 < 2 ^ 32)
    (s : PgSession) :
    let input := startupBytes codes body rest
    Runs (readStartup (input.length + 1) input) s (codes.map fun _ => refusal)
        (some (some (startupPacket body, rest), s)) ↔
      ∀ c ∈ codes, beNat c = sslRequestCode := by
  refine readStartup_iff hcodes hlong hlen ?_
  have hle : codes.length ≤ (codes.flatMap startupPacket).length := by
    rw [length_flatMap, ← length_map (f := fun c => (startupPacket c).length)]
    refine length_le_sum_of_one_le _ fun i hi => ?_
    obtain ⟨c, -, rfl⟩ := mem_map.mp hi
    rw [startupPacket, length_append, length_beBytes]
    omega
  rw [startupBytes, length_append]
  omega

theorem startup_in_step_twice :
    let codes := [beBytes 4 sslRequestCode, beBytes 4 sslRequestCode]
    let input := startupBytes codes [0, 3, 0, 0, 0, 0, 0, 0] [88, 0, 0, 0, 4]
    Runs (readStartup (input.length + 1) input) .init [refusal, refusal]
      (some (some (startupPacket [0, 3, 0, 0, 0, 0, 0, 0], [88, 0, 0, 0, 4]), .init)) :=
  (startup_in_step_iff [beBytes 4 sslRequestCode, beBytes 4 sslRequestCode] (by decide)
    [0, 3, 0, 0, 0, 0, 0, 0] [88, 0, 0, 0, 4] (by decide) (by decide) .init).mpr (by decide +kernel)

/-- A request for encryption by GSSAPI: the length of the next packet is taken for the rest of the
request, and the client's message is not found any more. -/
theorem startup_out_of_step :
    let input := startupBytes [beBytes 4 80877104] [0, 3, 0, 0, 0, 0, 0, 0] [88, 0, 0, 0, 4]
    Runs (readStartup (input.length + 1) input) .init []
      (some (some ([0, 0, 0, 8, 0, 0, 0, 12], [0, 3, 0, 0, 0, 0, 0, 0, 88, 0, 0, 0, 4]), .init)) ∧
    messages [88, 0, 0, 0, 4] = [⟨88, []⟩] ∧
    messages [0, 3, 0, 0, 0, 0, 0, 0, 88, 0, 0, 0, 4] = [] :=
  ⟨runs_pure.mpr ⟨rfl, rfl⟩, by decide +kernel, by decide +kernel⟩

end TransDb.Pgwire
