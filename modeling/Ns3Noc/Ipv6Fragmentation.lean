import Ns3Noc.Ipv6Headers
import Ns3Noc.OffsetCuts

/-!
# IPv6 fragmentation

`Ipv6ExtensionFragment::GetFragments`: the loop over the headers in front of the fragmentable part,
and the loop that cuts this part. Both run on fuel.
-/
namespace Ns3Noc.Ipv6

open OffsetCuts ExtensionHeader

/-- The next header stays in front of the fragment header. The byte behind the headers read so far
is left alone by `CopyData` if there is none. -/
def moreHeader (nextHeader : UInt8) (p : Bytes) : Bool :=
  nextHeader = IPV6_EXT_HOP_BY_HOP || nextHeader = IPV6_EXT_ROUTING ||
    (nextHeader = IPV6_EXT_DESTINATION && p.head? = some IPV6_EXT_ROUTING)

/-- What the loop over the headers has read, and what is left of the packet. -/
structure Split where
  unfragmentablePart : List ExtensionHeader
  unfragmentablePartSize : ℕ
  nextHeader : UInt8
  p : Bytes

/-- The length of a header is kept in a `uint8_t`. -/
def headerLoop : ℕ → UInt8 → Bytes → Option Split
  | 0, _, _ => none
  | fuel + 1, nextHeader, p =>
    (remove nextHeader p).bind fun (header, p) =>
      let extensionHeaderLength := header.getLength % 256
      if moreHeader header.nextHeader p then
        (headerLoop fuel header.nextHeader p).map fun rest =>
          { rest with
            unfragmentablePart := header :: rest.unfragmentablePart
            unfragmentablePartSize := extensionHeaderLength + rest.unfragmentablePartSize }
      else
        some ⟨[header.setNextHeader IPV6_EXT_FRAGMENTATION], extensionHeaderLength,
          header.nextHeader, p⟩

/-- The header with the fields of one fragment; `SetLength` keeps `(length >> 3) - 1`. -/
def FragmentHeader.forFragment (header : FragmentHeader) (nextHeader : UInt8)
    (identification offset size : ℕ) (moreFragment : Bool) : FragmentHeader :=
  let header := { header with
    nextHeader, identification
    length := UInt8.ofNat (size % 65536 / 8 + 255) }
  (header.setOffset offset).setMoreFragment moreFragment

/-- The headers are added in front of the fragment one after the other, then the IPv6 header. -/
def addHeaders (ipv6Header : Ipv6Header) (unfragmentablePart : List ExtensionHeader)
    (fragmentHeader : FragmentHeader) (data : Bytes) : Bytes :=
  let fragment := unfragmentablePart.foldl (fun fragment header => header.serialize ++ fragment)
    (fragmentHeader.serialize ++ data)
  { ipv6Header with payloadLength := fragment.length % 65536 }.serialize ++ fragment

/-- The loop that cuts the fragmentable part. -/
def fragmentLoop (ipv6Header : Ipv6Header) (split : Split)
    (maxFragmentablePartSize identification : ℕ) :
    ℕ → FragmentHeader → ℕ → Option (List Bytes)
  | 0, _, _ => none
  | fuel + 1, fragmentHeader, offset =>
    let moreFragment : Bool := (offset + maxFragmentablePartSize) % 4294967296 < split.p.length
    let size := if moreFragment then maxFragmentablePartSize else split.p.length - offset
    let size := size - size % 8
    let fragmentHeader :=
      fragmentHeader.forFragment split.nextHeader identification offset size moreFragment
    let fragment := addHeaders ipv6Header split.unfragmentablePart fragmentHeader
      ((split.p.drop offset).take size)
    if moreFragment then
      (fragmentLoop ipv6Header split maxFragmentablePartSize identification fuel fragmentHeader
        ((offset + size) % 65536)).map (fragment :: ·)
    else some [fragment]

/-- `Ipv6ExtensionFragment::GetFragments` with the identification that is drawn. -/
def getFragments (fuel : ℕ) (packet : Bytes) (maxFragmentSize identification : ℕ) :
    Option (List Bytes) :=
  (Ipv6Header.deserialize packet).bind fun ipv6Header =>
    let p := packet.drop 40
    let nextHeader := ipv6Header.nextHeader
    let moreHeader := moreHeader nextHeader p
    let ipv6Header :=
      if moreHeader then ipv6Header
      else { ipv6Header with nextHeader := IPV6_EXT_FRAGMENTATION }
    let split := if moreHeader then headerLoop fuel nextHeader p else some ⟨[], 0, nextHeader, p⟩
    split.bind fun split =>
      let maxFragmentablePartSize :=
        (maxFragmentSize + 4294967296 - (48 + split.unfragmentablePartSize) % 4294967296) %
          4294967296
      fragmentLoop ipv6Header split maxFragmentablePartSize identification fuel ⟨0, 0, 0, 0⟩ 0

/-! ## The packets that are cut -/

/-- Each header has the number of the one behind it, and the last one that of the payload. -/
def Linked (upper : UInt8) : UInt8 → List ExtensionHeader → Prop
  | nextHeader, [] => nextHeader = upper
  | nextHeader, header :: headers =>
    nextHeader = header.number ∧ Linked upper header.nextHeader headers

/-- Every node on the way reads a hop-by-hop or a routing header, and a destination header in front
of a routing header. -/
def ExtensionHeader.isUnfragmentable : ExtensionHeader → Bool
  | destination nextHeader .. => nextHeader = IPV6_EXT_ROUTING
  | _ => true

/-- An IPv6 packet: the bytes of its fixed header and what they say, its extension headers and its
payload. -/
structure Datagram where
  head : Bytes
  ipv6Header : Ipv6Header
  headers : List ExtensionHeader
  upper : UInt8
  payload : Bytes
  length_head : head.length = 40
  deserialize_head : Ipv6Header.deserialize head = some ipv6Header
  wellFormed : ∀ header ∈ headers, header.WellFormed
  linked : Linked upper ipv6Header.nextHeader headers
  upper_hopByHop : upper ≠ IPV6_EXT_HOP_BY_HOP
  upper_routing : upper ≠ IPV6_EXT_ROUTING
  upper_destination : upper ≠ IPV6_EXT_DESTINATION
  length_lt : (headers.flatMap serialize ++ payload).length < 65536

namespace Datagram

variable (d : Datagram)

def packet : Bytes := d.head ++ (d.headers.flatMap serialize ++ d.payload)

/-- The headers in front of the fragment header. -/
def unfragmentable : List ExtensionHeader := d.headers.takeWhile isUnfragmentable

/-- What is cut. -/
def fragmentable : Bytes := (d.headers.dropWhile isUnfragmentable).flatMap serialize ++ d.payload

def unfragmentableSize : ℕ := (d.unfragmentable.map getLength).sum

/-- The number of what is cut. -/
def fragmentableNumber : UInt8 := ((d.headers.dropWhile isUnfragmentable).head?.map number).getD
  d.upper

end Datagram

/-- The headers in front of a fragment header: the last one has its number. -/
def beforeFragment (headers : List ExtensionHeader) : List ExtensionHeader :=
  headers.dropLast ++ (headers.getLast?.map (setNextHeader IPV6_EXT_FRAGMENTATION)).toList

/-- The bytes of a fragment: an IPv6 header with the addresses and the hop limit of the datagram,
its unfragmentable headers in their order, a fragment header and the data. -/
def Datagram.Carries (d : Datagram) (identification offset : ℕ) (moreFragment : Bool)
    (data fragment : Bytes) : Prop :=
  ∃ (ipv6Header : Ipv6Header) (fragmentHeader : FragmentHeader),
    fragment = ipv6Header.serialize ++ ((beforeFragment d.unfragmentable).flatMap serialize ++
      (fragmentHeader.serialize ++ data)) ∧
    ipv6Header.sourceAddress = d.ipv6Header.sourceAddress ∧
    ipv6Header.destinationAddress = d.ipv6Header.destinationAddress ∧
    ipv6Header.hopLimit = d.ipv6Header.hopLimit ∧
    ipv6Header.payloadLength = (fragment.length - 40) % 65536 ∧
    ipv6Header.nextHeader = (d.unfragmentable.head?.map number).getD IPV6_EXT_FRAGMENTATION ∧
    fragmentHeader.nextHeader = d.fragmentableNumber ∧
    fragmentHeader.identification = identification ∧
    fragmentHeader.getOffset = offset ∧
    fragmentHeader.getMoreFragment = moreFragment

/-- The fragments carry pieces that make up the fragmentable part again, at the offsets at which
these start; the offsets are multiples of eight, and more fragments follow all but the last. -/
def Datagram.Lossless (d : Datagram) (maxFragmentSize identification : ℕ)
    (fragments : List Bytes) : Prop :=
  ∃ pieces : List Bytes, pieces ≠ [] ∧ fragments.length = pieces.length ∧
    pieces.flatten = d.fragmentable ∧
    (∀ j, ∀ fragment ∈ fragments[j]?, fragment.length ≤ maxFragmentSize ∧
      OffsetCuts.offset pieces j % 8 = 0 ∧
      d.Carries identification (OffsetCuts.offset pieces j) (decide (j + 1 < pieces.length))
        (pieces.getD j []) fragment)

end Ns3Noc.Ipv6
