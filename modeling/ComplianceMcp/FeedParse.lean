import ComplianceMcp.FeedCache

/-! # Parsing a feed

A feed document is RSS or Atom.  Of every item the title, the date, the link and the text are read
from the first child with the right tag, each as plain text: markup is replaced by blanks, entities
are decoded and white space at the ends is dropped.  An item without a title or a text is skipped;
the id of a release is made of the source, the day and a hash of title and text. -/
namespace ComplianceMcp

open PyText

/-! ## Element trees -/

/-- An element as `xml.etree` has it: the characters before its first child, those between its
end and the next element, and its children. -/
inductive Element where
  | mk (tag : String) (attrib : List (String × String)) (text tail : Option Text)
      (children : List Element)

namespace Element

def tag : Element → String
  | mk tag _ _ _ _ => tag

def attrib : Element → List (String × String)
  | mk _ attrib _ _ _ => attrib

def text : Element → Option Text
  | mk _ _ text _ _ => text

def tail : Element → Option Text
  | mk _ _ _ tail _ => tail

def children : Element → List Element
  | mk _ _ _ _ children => children

mutual
/-- `"".join(node.itertext())`: the characters of the element and of all its descendants, in
document order. -/
def itertext : Element → Text
  | mk _ _ text _ children => text.getD [] ++ itertexts children
/-- The characters of some elements, each with what follows it. -/
def itertexts : List Element → Text
  | [] => []
  | e :: rest => e.itertext ++ e.tail.getD [] ++ itertexts rest
end

mutual
/-- `node.iter()`: the element and its descendants, in document order. -/
def iter : Element → List Element
  | mk tag attrib text tail children => mk tag attrib text tail children :: iters children
def iters : List Element → List Element
  | [] => []
  | e :: rest => e.iter ++ iters rest
end

/-- `node.find(tag)`. -/
def find (e : Element) (tag : String) : Option Element := e.children.find? (fun c => c.tag = tag)

/-- `node.findall(".//" + tag)`. -/
def findall (e : Element) (tag : String) : List Element :=
  (iters e.children).filter (fun c => c.tag = tag)

end Element

/-! ## Plain text -/

/-- What follows a `<` is the rest of a tag. -/
def isTagRest (t : Text) : Bool := t.takeWhile (· ≠ '>') ≠ [] && t.contains '>'

/-- `_TAGS.sub(" ", t)`; `inTag` holds within a tag. -/
def subTags (inTag : Bool) : Text → Text
  | [] => []
  | c :: t =>
    if inTag then subTags (c ≠ '>') t
    else if c = '<' && isTagRest t then ' ' :: subTags true t
    else c :: subTags false t

/-- What the fetcher takes from the standard library. -/
structure FeedLibrary where
  /-- `html.unescape(t)`. -/
  unescape : Text → Text
  /-- The day in UTC of an RFC 2822 or ISO 8601 date. -/
  day : Text → Except PyError String

section Parse

variable (lib : FeedLibrary)

/-- `html.unescape(_TAGS.sub(" ", raw)).strip()`. -/
def plainText (raw : Text) : Text := strip (lib.unescape (subTags false raw))

/-- `_text_of(node)`. -/
def textOf : Option Element → Text
  | none => []
  | some node => plainText lib (match node.text with
    | none => node.itertext
    | some t => t)

/-- `_iso_date(raw)` on the day `today`. -/
def isoDate (today : String) (raw : Text) : Except PyError String :=
  if raw = [] then .ok today else lib.day raw

/-- `x or y` on texts. -/
def orText (x y : Text) : Text := if x ≠ [] then x else y

/-! ## Items -/

/-- `_ATOM`. -/
def atomNamespace : String := "\x7bhttp://www.w3.org/2005/Atom\x7d"

def contentNamespace : String := "\x7bhttp://purl.org/rss/1.0/modules/content/\x7d"

/-- `item.tag.startswith(_ATOM)`. -/
def isAtom (item : Element) : Bool := atomNamespace.toList.isPrefixOf item.tag.toList

/-- The element of the title. -/
def titleNode (item : Element) : Option Element :=
  item.find (if isAtom item then atomNamespace ++ "title" else "title")

/-- The element that is preferred for the text. -/
def contentNode (item : Element) : Option Element :=
  item.find (if isAtom item then atomNamespace ++ "content" else contentNamespace ++ "encoded")

/-- The element the text is taken from where that one has none. -/
def summaryNode (item : Element) : Option Element :=
  item.find (if isAtom item then atomNamespace ++ "summary" else "description")

/-- The text of the item, with the white space it has. -/
def itemBody (item : Element) : Text :=
  orText (textOf lib (contentNode item)) (textOf lib (summaryNode item))

/-- The text of the date. -/
def itemDate (item : Element) : Text :=
  if isAtom item then
    orText (textOf lib (item.find (atomNamespace ++ "updated")))
      (textOf lib (item.find (atomNamespace ++ "published")))
  else textOf lib (item.find "pubDate")

/-- The link. -/
def itemUrl (item : Element) : Text :=
  if isAtom item then
    (((item.find (atomNamespace ++ "link")).bind (fun n => n.attrib.lookup "href")).getD "").toList
  else textOf lib (item.find "link")

variable (rt : Runtime)

/-- The first eight digits of the hash of title and text. -/
def fingerprint (title text : Text) : Text :=
  ((rt.sha256 (utf8 (title ++ '\n' :: text))).text.toList).take 8

/-- `f"{source}-{published.replace('-', '')}-{digest}"`. -/
def releaseIdOf (source published : String) (digest : Text) : String :=
  String.ofList (source.toList ++ '-' :: (published.toList.filter (· ≠ '-') ++ '-' :: digest))

/-- The release of one item, `none` where it is skipped. -/
def parseItem (source today : String) (item : Element) : Except PyError (Option CheckedRelease) :=
  match isoDate lib today (itemDate lib item) with
  | .error e => .error e
  | .ok published =>
    let title := textOf lib (titleNode item)
    let text := normalise (itemBody lib item)
    if title = [] ∨ text = [] then .ok none
    else if h : isDateText published.toList = true then
      .ok (some ⟨{
        releaseId := releaseIdOf source published (fingerprint rt title text)
        source := source
        published := published
        title := String.ofList (normalise title)
        url := String.ofList (itemUrl lib item)
        text := String.ofList text }, h⟩)
    else .error .validationError

/-- The loop over the items. -/
def parseItems (source today : String) : List Element → Except PyError (List CheckedRelease)
  | [] => .ok []
  | item :: rest =>
    match parseItem lib rt source today item with
    | .error e => .error e
    | .ok release =>
      match parseItems source today rest with
      | .error e => .error e
      | .ok releases => .ok (release.toList ++ releases)

/-- `root.findall(".//item") or root.findall(f".//{_ATOM}entry")`. -/
def feedItems (root : Element) : List Element :=
  if root.findall "item" ≠ [] then root.findall "item" else root.findall (atomNamespace ++ "entry")

/-- `parse_feed(xml_text, source)` on the tree of the document. -/
def parseFeed (source today : String) (root : Element) : Except PyError (List CheckedRelease) :=
  parseItems lib rt source today (feedItems root)

end Parse

end ComplianceMcp
