/-! # Tags

The field numbers that occur in paths from a file to a declaration in it.
-/

namespace ProtoJava.Descriptor.Tag

def fileMessage : Int := 4
def fileEnum : Int := 5
def fileExtension : Int := 7
def messageField : Int := 2
def messageNested : Int := 3
def messageEnum : Int := 4
def messageExtension : Int := 6
def messageOneof : Int := 8
def enumValue : Int := 2

end ProtoJava.Descriptor.Tag
