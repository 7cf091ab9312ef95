import Trawl.Content.Classification
import Trawl.Proofs.Compression.Members

/-!
# Members that follow each other

Gzipped content may be several members, one behind the other. Only the first one is read: whatever
members follow it, what they hold is in no chunk, and nothing says so. So content of several members
is read in full exactly where all but the first hold nothing (`members_decoded_iff`).
-/

namespace Trawl.Content

open Compression
open Compression.Gzip (Member)

/-- What is declared to be encoded counts as what it decodes to only. -/
theorem classify_congr {encoding : Compressed} {name : String} {budget : Nat} {b b' : Bytes}
    (hname : Compressed.ofDeclared? name = some encoding)
    (h : encoding.decode budget b = encoding.decode budget b') (unwraps : Nat)
    (mediaType : Option String) :
    classify ⟨unwraps + 1, budget⟩ (some name) mediaType b =
      classify ⟨unwraps + 1, budget⟩ (some name) mediaType b' := by
  unfold classify split splitDeclared Declared.ofTexts
  rw [Option.bind_some, hname]
  dsimp only [inner?, Option.map_some]
  unfold splitUnwrapped
  rw [h]

/-- Of members that follow each other, the first one is all that is decoded and classified. That is
all of their data if the other ones hold none, and only then. -/
theorem members_decoded_iff (first : Member) (more : List Member) {limit : Nat}
    (hlimit : first.data.length ≤ limit) :
    let b := first.bytes ++ more.flatMap Member.bytes
    Gzip.decode limit b = .ok first.data ∧
      (Gzip.decode limit b = .ok (first.data ++ more.flatMap Member.data) ↔
        ∀ m ∈ more, m.data = []) ∧
      ∀ (unwraps : Nat) (name : String) (mediaType : Option String),
        Compressed.ofDeclared? name = some .gzip →
          classify ⟨unwraps + 1, limit⟩ (some name) mediaType b =
            classify ⟨unwraps + 1, limit⟩ (some name) mediaType first.bytes := by
  intro b
  have hdecode : Gzip.decode limit b = .ok first.data :=
    first.decode_bytes_append hlimit _
  refine ⟨hdecode, ?whole, fun unwraps name mediaType hname => ?classified⟩
  case whole =>
    rw [hdecode, Except.ok.injEq, List.self_eq_append_right, List.flatMap_eq_nil_iff]
  case classified =>
    refine classify_congr hname ?_ unwraps mediaType
    exact hdecode.trans (first.decode_bytes hlimit).symm

/-- Behind a member with a letter, members without data do not matter, and one with another letter
is lost. -/
theorem members_decoded_letters :
    let first := Member.stored [0x61] (by decide)
    let second := Member.stored [0x62] (by decide)
    let empty := Member.stored [] (by decide)
    Gzip.decode 1 (first.bytes ++ [empty, empty].flatMap Member.bytes) = .ok [0x61] ∧
      Gzip.decode 2 (first.bytes ++ [empty, second].flatMap Member.bytes) ≠ .ok [0x61, 0x62] ∧
      classify ⟨1, 2⟩ (some "gzip") none (first.bytes ++ [empty, second].flatMap Member.bytes) =
        classify ⟨1, 2⟩ (some "gzip") none first.bytes := by
  intro first second empty
  have hone : first.data.length ≤ 1 := Nat.le_refl 1
  have htwo : first.data.length ≤ 2 := Nat.le_succ 1
  have hname : Compressed.ofDeclared? "gzip" = some .gzip := by decide +kernel
  obtain ⟨-, hiff, -⟩ := members_decoded_iff first [empty, empty] hone
  obtain ⟨-, hiff', hclassify⟩ := members_decoded_iff first [empty, second] htwo
  refine ⟨hiff.2 (by decide), fun h => ?_, hclassify 0 "gzip" none hname⟩
  exact absurd (hiff'.1 h second (by simp)) (by decide)

/-- Of two members with a letter each, the second one is lost, though there is room for it. -/
theorem second_member_lost :
    let first := Member.stored [0x61] (by decide)
    let second := Member.stored [0x62] (by decide)
    Gzip.decode 2 (first.bytes ++ second.bytes) = .ok [0x61] ∧
      Gzip.decode 2 (first.bytes ++ second.bytes) ≠ .ok (first.data ++ second.data) ∧
      classify ⟨5, 52428800⟩ (some "gzip") none (first.bytes ++ second.bytes) =
        .ok [⟨"text/plain", [0x61]⟩] ∧
      classify ⟨4, 52428798⟩ none none (first.data ++ second.data) =
        .ok [⟨"text/plain", [0x61, 0x62]⟩] := by
  decide +kernel

end Trawl.Content
