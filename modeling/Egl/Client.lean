import Egl.Display

namespace Egl.Client

def text (t : DisplayText) : Op String := Op.require "eglQueryString" (.queryString 0 t.code)

def extensions : Op String := text .extensions

def version : Op String := text .version

def bindApi (api : UInt32) : Op Unit := Op.require "eglBindAPI" (.bindApi api)

def queryApi : Op UInt32 := Op.perform .queryApi

def releaseThread : Op Unit := Op.require "eglReleaseThread" .releaseThread

end Egl.Client
