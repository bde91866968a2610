import K8sIpam.Ipam.Resources
import K8sIpam.Lib.Codec

/-! # Resources as texts

The proxies send resources as JSON. All that matters of the format is that what was written is read
back; the codecs of the resources are such a format. -/

namespace K8sIpam.Proxy
open Std Atomic Ipam Net

/-- `json.Marshal` and `json.Unmarshal` of a type. -/
structure Json (A : Type) where
  marshal : A → String
  unmarshal : String → Except Failure A
  round_trip : ∀ a, unmarshal (marshal a) = .ok a

/-- A text is read as a whole. -/
def Json.ofCodec {A : Type} (codec : Codec A) : Json A where
  marshal a := String.ofList (codec.write a)
  unmarshal text :=
    match codec.read text.toList with
    | some (a, []) => .ok a
    | _ => .error (.error "unexpected end of JSON input")
  round_trip a := by
    have hread := codec.read_write a []
    rw [List.append_nil] at hread
    rw [String.toList_ofList, hread]

/-! ## The codecs of the resources -/

def labelsCodec : Codec Labels := .map .string .string

def metadataCodec : Codec ObjectMeta :=
  ((Codec.string.pair .string).pair labelsCodec).via (fun m => ((m.name, m.ns), m.labels))
    (fun x => some ⟨x.1.1, x.1.2, x.2⟩) fun _ => rfl

def referenceCodec : Codec ObjectReference :=
  (Codec.string.pair .string).via (fun ref => (ref.name, ref.ns)) (fun x => some ⟨x.1, x.2⟩)
    fun _ => rfl

def kindCodec : Codec PrefixKind :=
  Codec.string.via PrefixKind.toString
    (fun s => [.network, .loopback, .pool, .aggregate].find? fun kind => kind.toString = s)
    fun kind => by cases kind <;> decide

def familyCodec : Codec Family :=
  Codec.char.via (fun | .ipv4 => '4' | .ipv6 => '6')
    (fun | '4' => some .ipv4 | '6' => some .ipv6 | _ => none) fun f => by cases f <;> rfl

def lengthCodec : Codec UInt8 :=
  Codec.nat.via UInt8.toNat (some ∘ UInt8.ofNat) fun n => by simp

def boolCodec : Codec Bool :=
  Codec.char.via (fun | true => 't' | false => 'f')
    (fun | 't' => some true | 'f' => some false | _ => none) fun b => by cases b <;> rfl

def claimSpecCodec : Codec IPClaimSpec :=
  ((labelsCodec.pair labelsCodec.option).pair ((kindCodec.pair referenceCodec).pair
      ((familyCodec.option.pair Codec.string.option).pair
        (lengthCodec.option.pair boolCodec.option)))).via
    (fun s => ((s.labels, s.selector), (s.kind, s.networkInstance), (s.addressFamily, s.pfx),
      s.prefixLength, s.createPrefix))
    (fun x => some ⟨⟨x.1.1, x.1.2⟩, x.2.1.1, x.2.1.2, x.2.2.1.1, x.2.2.1.2, x.2.2.2.1, x.2.2.2.2⟩)
    fun _ => rfl

def claimStatusCodec : Codec IPClaimStatus :=
  (Codec.string.option.pair Codec.string.option).via (fun s => (s.pfx, s.gateway))
    (fun x => some ⟨x.1, x.2⟩) fun _ => rfl

def claimCodec : Codec IPClaim :=
  ((metadataCodec.pair claimSpecCodec).pair claimStatusCodec).via
    (fun c => ((c.metadata, c.spec), c.status)) (fun x => some ⟨x.1.1, x.1.2, x.2⟩) fun _ => rfl

def instancePrefixCodec : Codec InstancePrefix :=
  (Codec.string.pair labelsCodec).via (fun p => (p.pfx, p.labels)) (fun x => some ⟨x.1, x.2⟩)
    fun _ => rfl

def instanceCodec : Codec NetworkInstance :=
  ((metadataCodec.pair instancePrefixCodec.list).pair instancePrefixCodec.list).via
    (fun cr => ((cr.metadata, cr.spec.prefixes), cr.status.prefixes))
    (fun x => some ⟨x.1.1, ⟨x.1.2⟩, ⟨x.2⟩⟩) fun _ => rfl

/-- The format of the claims of the samples. -/
def claimJson : Json IPClaim := .ofCodec claimCodec

def instanceJson : Json NetworkInstance := .ofCodec instanceCodec

end K8sIpam.Proxy
